/-
# `Ssa.Proofs.Exec.Sharing` — runs on memories that are matched

Two runs of one function may start from memories in which cells have other numbers, and in which there
are cells that neither run comes upon.  As long as the cells that are taken for one another have the same
content, up to that, the two do the same: they fail alike, or come to values that are taken for one
another, and leave memories that are matched again.

What else is to hold of the two memories is left open, as far as it survives new cells and writing.

**Proved here.**

    new cells, reading and writing keep memories matched          (`allocate_paired`, `cell_paired`, `write_paired`)
    instructions on renamed values do the same                      (`compute_paired`, `perform_paired`)
    so does a step, a run, and a call                                 (`step_paired`, `run_paired`, `call_paired`)
-/
import Ssa.Proofs.Exec.Preserved
import Ssa.Proofs.Exec.Renaming

namespace Ssa

open Effect (Paired)

/-! ## Memories -/

/-- Cells that are taken for one another are there, of one type, and with contents that are. -/
def Storage.Matched (ρ : Renaming) (s t : Storage) : Prop :=
  ∀ a b, ρ.pairs a b → ∃ type v w,
    s.cell? a = some ⟨type, v⟩ ∧ t.cell? b = some ⟨type, w⟩ ∧ v.Renamed ρ w

namespace Storage

variable {s t : Storage} {c : Cell} {a b : Nat} {v : Value}

theorem cell?_addCell (s : Storage) (c : Cell) (a : Nat) :
    (s.addCell c).cell? a = if a = s.cells.size then some c else s.cell? a := by
  unfold addCell cell?
  exact Array.getElem?_push

theorem cell?_write (s : Storage) (a b : Nat) (v : Value) :
    (s.write a v).cell? b = if a = b then (s.cell? b).map fun c => { c with value := v } else s.cell? b := by
  unfold write cell?
  exact Array.getElem?_modify

theorem lt_of_cell? (h : s.cell? a = some c) : a < s.cells.size := by
  obtain ⟨hlt, -⟩ := Array.getElem?_eq_some_iff.mp h
  exact hlt

namespace Matched

variable {ρ : Renaming}

theorem lt (h : s.Matched ρ t) (hab : ρ.pairs a b) : a < s.cells.size ∧ b < t.cells.size := by
  obtain ⟨_, _, _, hs, ht, -⟩ := h a b hab
  exact ⟨lt_of_cell? hs, lt_of_cell? ht⟩

/-- A renaming of the two cells that are made next as well. -/
def next (h : s.Matched ρ t) : Renaming :=
  ρ.extend s.cells.size t.cells.size (fun _ hab => absurd (h.lt hab).1 (Nat.lt_irrefl _))
    fun _ hab => absurd (h.lt hab).2 (Nat.lt_irrefl _)

theorem next_extends (h : s.Matched ρ t) : h.next.Extends ρ := fun _ _ => .inl

theorem addCell (h : s.Matched ρ t) {type : Ty} {v w : Value} (hvw : v.Renamed ρ w) :
    (s.addCell ⟨type, v⟩).Matched h.next (t.addCell ⟨type, w⟩) := by
  intro a b hab
  rw [cell?_addCell, cell?_addCell]
  rcases hab with hab | ⟨rfl, rfl⟩
  · obtain ⟨hlt, hlt'⟩ := h.lt hab
    obtain ⟨type', v', w', hs, ht, hvw'⟩ := h a b hab
    exact ⟨type', v', w', by rw [if_neg hlt.ne, hs], by rw [if_neg hlt'.ne, ht], hvw'.mono h.next_extends⟩
  · exact ⟨type, v, w, if_pos rfl, if_pos rfl, hvw.mono h.next_extends⟩

theorem write (h : s.Matched ρ t) (hab : ρ.pairs a b) {v w : Value} (hvw : v.Renamed ρ w) :
    (s.write a v).Matched ρ (t.write b w) := by
  intro x y hxy
  obtain ⟨type, v', w', hs, ht, hvw'⟩ := h x y hxy
  rw [cell?_write, cell?_write, hs, ht]
  by_cases hx : a = x
  · subst hx
    cases ρ.to_one hab hxy
    exact ⟨type, v, w, by simp, by simp, hvw⟩
  · have hy : b ≠ y := by
      rintro rfl
      exact hx (ρ.from_one hab hxy)
    exact ⟨type, v', w', if_neg hx, if_neg hy, hvw'⟩

end Matched

end Storage

/-- What is to hold of two memories besides that their cells are matched.  It survives a new cell on
both sides, and writing to cells that are taken for one another. -/
structure Ties where
  holds : Renaming → Memory → Memory → Prop
  addCell : ∀ {ρ m m'} (h : m.storage.Matched ρ m'.storage) (c c' : Cell), holds ρ m m' →
    holds h.next { m with storage := m.storage.addCell c } { m' with storage := m'.storage.addCell c' }
  write : ∀ {ρ m m' a b} (v w : Value), ρ.pairs a b → holds ρ m m' →
    holds ρ { m with storage := m.storage.write a v } { m' with storage := m'.storage.write b w }

namespace Ties

/-- Two memories, at the stage of a renaming. -/
abbrev pairing (K : Ties) : Pairing Memory Memory where
  Stage := Renaming
  holds ρ m m' := m.storage.Matched ρ m'.storage ∧ K.holds ρ m m'
  onward ρ ρ' := ρ'.Extends ρ
  refl := Renaming.Extends.refl
  trans := Renaming.Extends.trans

variable {K : Ties} {ρ : Renaming} {m m' : Memory} {v w : Value} {a b : Nat}

/-! ## Cells -/

theorem lift_paired {α β : Type} {P : Renaming → α → β → Prop} {x : Except Failure α}
    {y : Except Failure β} (h : K.pairing.holds ρ m m') (hxy : Agree (P ρ) x y) :
    Paired K.pairing ρ (Exec.lift x) m (Exec.lift y) m' P :=
  .of_on (Exec.on_lift x m) (Exec.on_lift y m') h hxy

theorem allocate_paired (h : K.pairing.holds ρ m m') (t : Ty) (hvw : v.Renamed ρ w) :
    Paired K.pairing ρ (Exec.allocate t v) m (Exec.allocate t w) m' fun ρ' a b => ρ'.pairs a b :=
  ⟨h.1.next, h.1.next_extends, ⟨h.1.addCell hvw, K.addCell h.1 _ _ h.2⟩, .ok (.inr ⟨rfl, rfl⟩)⟩

theorem write_paired (h : K.pairing.holds ρ m m') (hab : ρ.pairs a b) (hvw : v.Renamed ρ w) :
    Paired K.pairing ρ (Exec.write a v) m (Exec.write b w) m' fun _ _ _ => True :=
  ⟨ρ, .refl ρ, ⟨h.1.write hab hvw, K.write v w hab h.2⟩, .ok trivial⟩

theorem cell_paired (h : K.pairing.holds ρ m m') (hab : ρ.pairs a b) :
    Paired K.pairing ρ (Exec.cell a) m (Exec.cell b) m' fun ρ' c c' => c.value.Renamed ρ' c'.value := by
  obtain ⟨_, _, _, hs, ht, hvw⟩ := h.1 a b hab
  refine .of_on (Exec.on_cell a m) (Exec.on_cell b m') h (.ok ?_)
  rw [hs, ht]
  exact hvw

end Ties

/-! ## Frames -/

/-- Two frames have values under the same numbers, and those are taken for one another. -/
def Env.Renamed (ρ : Renaming) (env env' : Env) : Prop :=
  ∀ id, Option.Rel (Value.Renamed ρ) (env.lookup id) (env'.lookup id)

namespace Env.Renamed

variable {ρ ρ' : Renaming} {env env' : Env} {v w : Value}

theorem mono (h : env.Renamed ρ env') (hρ : ρ'.Extends ρ) : env.Renamed ρ' env' := by
  intro id
  have hid := h id
  generalize env.lookup id = x, env'.lookup id = y at hid
  cases hid with
  | none => exact .none
  | some hvw => exact .some (hvw.mono hρ)

theorem empty (ρ : Renaming) : Env.Renamed ρ [] [] := fun _ => .none

theorem cons (h : env.Renamed ρ env') (id : Nat) (hvw : v.Renamed ρ w) :
    Env.Renamed ρ ((id, v) :: env) ((id, w) :: env') := by
  intro k
  rw [List.lookup_cons, List.lookup_cons]
  split
  · exact .some hvw
  · exact h k

theorem bind (h : env.Renamed ρ env') (id : Nat) (hvw : v.Renamed ρ w) :
    (env.bind id v).Renamed ρ (env'.bind id w) := by
  intro k
  rw [Env.lookup_bind, Env.lookup_bind]
  split
  · exact .some hvw
  · exact h k

theorem bindAll {vs ws : List (Nat × Value)} (h : env.Renamed ρ env')
    (hvs : List.Forall₂ (fun x y => x.1 = y.1 ∧ x.2.Renamed ρ y.2) vs ws) :
    (env.bindAll vs).Renamed ρ (env'.bindAll ws) := by
  induction hvs generalizing env env' with
  | nil => exact h
  | @cons x y vs ws hxy _ ih =>
      refine ih ?_
      show (env.bind x.1 x.2).Renamed ρ (env'.bind y.1 y.2)
      rw [← hxy.1]
      exact h.bind x.1 hxy.2

end Env.Renamed

/-- Two instructions ask for the same, on values that are taken for one another. -/
inductive Signal.Renamed (ρ : Renaming) : Signal → Signal → Prop
  | value {v w : Value} : v.Renamed ρ w → Renamed ρ (.value v) (.value w)
  | goto (target : Nat) : Renamed ρ (.goto target) (.goto target)
  | call (callee : Nat) {vs ws : List Value} :
      List.Forall₂ (Value.Renamed ρ) vs ws → Renamed ρ (.call callee vs) (.call callee ws)
  | ret {v w : Value} : v.Renamed ρ w → Renamed ρ (.ret v) (.ret w)

/-- Two frames are at one place, with values that are taken for one another. -/
structure Frame.Renamed (ρ : Renaming) (fr fr' : Frame) : Prop where
  function : fr'.function = fr.function
  env : fr.env.Renamed ρ fr'.env
  block : fr'.block = fr.block
  pc : fr'.pc = fr.pc
  pending : fr'.pending = fr.pending

namespace Frame.Renamed

variable {ρ ρ' : Renaming} {fr fr' : Frame} {v w : Value}

theorem mono (h : fr.Renamed ρ fr') (hρ : ρ'.Extends ρ) : fr.Renamed ρ' fr' :=
  { h with env := h.env.mono hρ }

theorem current? (h : fr.Renamed ρ fr') : fr'.current? = fr.current? := by
  rw [Frame.current?, h.function, h.block, h.pc, Frame.current?]

theorem advance (h : fr.Renamed ρ fr') (id : Nat) (hvw : v.Renamed ρ w) :
    (fr.advance id v).Renamed ρ (fr'.advance id w) :=
  ⟨h.function, h.env.bind id hvw, h.block, congrArg (· + 1) h.pc, rfl⟩

theorem await (h : fr.Renamed ρ fr') (id : Nat) : (fr.await id).Renamed ρ (fr'.await id) :=
  { h with pending := rfl }

theorem resume (h : fr.Renamed ρ fr') (hvw : v.Renamed ρ w) : (fr.resume v).Renamed ρ (fr'.resume w) := by
  rw [Frame.resume, Frame.resume, h.pending]
  split
  · exact h.advance _ hvw
  · exact h

end Frame.Renamed

/-- Two machines are at one place. -/
inductive Machine.State.Renamed (ρ : Renaming) : Machine.State → Machine.State → Prop
  | running {fr fr' : Frame} {waiting waiting' : List Frame} :
      fr.Renamed ρ fr' → List.Forall₂ (Frame.Renamed ρ) waiting waiting' →
      Renamed ρ (.running fr waiting) (.running fr' waiting')
  | done {v w : Value} : v.Renamed ρ w → Renamed ρ (.done v) (.done w)

theorem Machine.leave_renamed {ρ : Renaming} {v w : Value} {waiting waiting' : List Frame}
    (hvw : v.Renamed ρ w) (h : List.Forall₂ (Frame.Renamed ρ) waiting waiting') :
    (leave v waiting).Renamed ρ (leave w waiting') := by
  cases h with
  | nil => exact .done hvw
  | cons hfr hrest => exact .running (hfr.resume hvw) hrest

/-! ## Instructions -/

namespace Ties

variable {K : Ties} {ρ : Renaming} {m m' : Memory} {v w : Value} {ev ev' : Operand → Exec Value}

/-- Operands come to values that are taken for one another, at a stage and all further ones. -/
def Evaluates (K : Ties) (ρ : Renaming) (ev ev' : Operand → Exec Value) : Prop :=
  ∀ ρ' m m' o, ρ'.Extends ρ → K.pairing.holds ρ' m m' →
    Paired K.pairing ρ' (ev o) m (ev' o) m' Value.Renamed

theorem Evaluates.mono {ρ' : Renaming} (h : K.Evaluates ρ ev ev') (hρ : ρ'.Extends ρ) :
    K.Evaluates ρ' ev ev' :=
  fun ρ'' m m' o hρ' => h ρ'' m m' o (hρ.trans hρ')

theorem Evaluates.all (h : K.Evaluates ρ ev ev') (hm : K.pairing.holds ρ m m') (os : List Operand) :
    Paired K.pairing ρ (os.mapM ev) m (os.mapM ev') m'
      fun ρ' vs ws => List.Forall₂ (Value.Renamed ρ') vs ws := by
  refine .mapM (R := fun _ => Eq) (fun _ _ _ _ _ hab => hab) (fun _ _ _ _ hρ hvw => hvw.mono hρ) hm
    (List.forall₂_same.mpr fun _ _ => rfl) fun ρ' o _ m₁ m₁' hρ hm₁ ho => ?_
  subst ho
  exact h ρ' m₁ m₁' o hρ hm₁

/-- An access goes through cells that are taken for one another, or fails. -/
theorem cellOf_paired (hm : K.pairing.holds ρ m m') (f : Function) (word : String) (hvw : v.Renamed ρ w) :
    Paired K.pairing ρ (Interpreted.cellOf f word v) m (Interpreted.cellOf f word w) m'
      fun ρ' a b => ρ'.pairs a b := by
  cases hvw with
  | cell hab => exact .pure hm hab
  | @same v h =>
      cases v with
      | cell a => cases h
      | _ => exact .throw hm _

theorem compute_paired (h : K.Evaluates ρ ev ev') (hm : K.pairing.holds ρ m m') (f : Function) (t : Ty)
    (op : Op) :
    Paired K.pairing ρ (Interpreted.compute ev f t op) m (Interpreted.compute ev' f t op) m'
      Value.Renamed := by
  by_cases hc : op.isComputed = true
  · -- what only computes sees the values, and no memory
    rw [Interpreted.compute_eq_result ev f t hc, Interpreted.compute_eq_result ev' f t hc]
    refine .bind (h.all hm _) fun ρ₁ vs ws m₁ m₁' _ hm₁ hvs => ?_
    exact lift_paired hm₁ (Interpreted.result_renamed f t hvs)
  cases op with
  | int | fp | fneg | icmp | fcmp | cast => exact absurd rfl hc
  | select c a b =>
      refine .bind (h ρ m m' c (.refl ρ) hm) fun ρ₁ x y m₁ m₁' hρ₁ hm₁ hxy => ?_
      rw [hxy.isTrue]
      split
      · exact h ρ₁ m₁ m₁' a hρ₁ hm₁
      · exact h ρ₁ m₁ m₁' b hρ₁ hm₁
  | alloca u _ =>
      refine .bind (allocate_paired hm u (.same (Value.zero_isCell u))) fun ρ₁ a b m₁ m₁' _ hm₁ hab => ?_
      exact .pure hm₁ (.cell hab)
  | load a =>
      refine .bind (h ρ m m' a (.refl ρ) hm) fun ρ₁ x y m₁ m₁' hρ₁ hm₁ hxy => ?_
      refine .bind (cellOf_paired hm₁ f _ hxy) fun ρ₂ a b m₂ m₂' _ hm₂ hab => ?_
      refine .bind (cell_paired hm₂ hab) fun ρ₃ c c' m₃ m₃' _ hm₃ hc => ?_
      exact .pure hm₃ hc
  | store v a =>
      refine .bind (h ρ m m' v (.refl ρ) hm) fun ρ₁ x x' m₁ m₁' hρ₁ hm₁ hx => ?_
      refine .bind (h ρ₁ m₁ m₁' a hρ₁ hm₁) fun ρ₂ y y' m₂ m₂' hρ₂ hm₂ hy => ?_
      refine .bind (cellOf_paired hm₂ f _ hy) fun ρ₃ a b m₃ m₃' hρ₃ hm₃ hab => ?_
      refine .bind (write_paired hm₃ hab (hx.mono (hρ₂.trans hρ₃))) fun ρ₄ _ _ m₄ m₄' _ hm₄ _ => ?_
      exact .pure hm₄ .null
  | _ => exact .throw hm _

theorem chooseCase_paired (h : K.Evaluates ρ ev ev') (hm : K.pairing.holds ρ m m') (hvw : v.Renamed ρ w)
    (default : Nat) (cases : List (Operand × Nat)) :
    Paired K.pairing ρ (Interpreted.chooseCase ev v default cases) m
      (Interpreted.chooseCase ev' w default cases) m' fun _ => Eq := by
  induction cases generalizing ρ m m' with
  | nil => exact .pure hm rfl
  | cons e rest ih =>
      refine .bind (h ρ m m' e.1 (.refl ρ) hm) fun ρ₁ x y m₁ m₁' hρ₁ hm₁ hxy => ?_
      rw [hxy.equals (hvw.mono hρ₁)]
      split
      · exact .pure hm₁ rfl
      · exact ih (h.mono hρ₁) hm₁ (hvw.mono hρ₁)

theorem calls_paired (h : K.Evaluates ρ ev ev') (hm : K.pairing.holds ρ m m') (p : Program) (f : Function)
    (callee : Operand) (args : List Operand) :
    Paired K.pairing ρ (Interpreted.call p ev f callee args) m (Interpreted.call p ev' f callee args) m'
      Signal.Renamed := by
  unfold Interpreted.call
  split
  · split
    · exact .bind (h.all hm args) fun ρ₁ vs ws m₁ m₁' _ hm₁ hvs => .pure hm₁ (.call _ hvs)
    · exact .throw hm _
  · exact .throw hm _

theorem control_paired (h : K.Evaluates ρ ev ev') (hm : K.pairing.holds ρ m m') (p : Program)
    (f : Function) (t : Ty) (op : Op) :
    Paired K.pairing ρ
      (Interpreted.control ev f op (Interpreted.call p ev f) (Interpreted.compute ev f t op)) m
      (Interpreted.control ev' f op (Interpreted.call p ev' f) (Interpreted.compute ev' f t op)) m'
      Signal.Renamed := by
  cases op with
  | ret v =>
      cases v with
      | none => exact .pure hm (.ret .null)
      | some v =>
          exact .bind (h ρ m m' v (.refl ρ) hm) fun _ _ _ _ _ _ hm₁ hxy => .pure hm₁ (.ret hxy)
  | br t => exact .pure hm (.goto t)
  | condBr c t e =>
      refine .bind (h ρ m m' c (.refl ρ) hm) fun ρ₁ x y m₁ m₁' _ hm₁ hxy => ?_
      rw [hxy.isTrue]
      exact .pure hm₁ (.goto _)
  | switch v d cases =>
      refine .bind (h ρ m m' v (.refl ρ) hm) fun ρ₁ x y m₁ m₁' hρ₁ hm₁ hxy => ?_
      refine .bind (chooseCase_paired (h.mono hρ₁) hm₁ hxy d cases) fun _ t _ m₂ m₂' _ hm₂ ht => ?_
      subst ht
      exact .pure hm₂ (.goto t)
  | unreachable => exact .throw hm _
  | call callee args => exact calls_paired h hm p f callee args
  | invoke callee args => exact calls_paired h hm p f callee args
  | _ =>
      exact .bind (compute_paired h hm f t _) fun _ _ _ _ _ _ hm₁ hxy => .pure hm₁ (.value hxy)

/-! ## The machine -/

/-- The variables of a module come to cells that are taken for one another. -/
def Opens (K : Ties) (p : Program) : Prop :=
  ∀ ρ m m' function i x, p.module.symbols[i]? = some (.variable x) → K.pairing.holds ρ m m' →
    Paired K.pairing ρ (Interpreted.globalCell function i x) m (Interpreted.globalCell function i x) m'
      Value.Renamed

variable {p : Program} {f : Function} {env env' : Env} {fr fr' : Frame} {waiting waiting' : List Frame}
  {args args' : List Value} {st st' : Machine.State}

theorem eval_paired (hp : K.Opens p) (hm : K.pairing.holds ρ m m') (henv : env.Renamed ρ env')
    (o : Operand) : Paired K.pairing ρ (Interpreted.eval p f env o) m (Interpreted.eval p f env' o) m'
      Value.Renamed := by
  cases o with
  | const c => exact lift_paired hm (Value.alike_of_eq rfl fun v hv => Interpreted.constant_isCell hv)
  | «local» id t =>
      unfold Interpreted.eval
      dsimp only
      have hid := henv id
      generalize env.lookup id = x, env'.lookup id = y at hid
      cases hid with
      | none => exact .throw hm _
      | some hvw => exact .pure hm hvw
  | global i t =>
      unfold Interpreted.eval
      dsimp only
      split
      · rename_i x hx
        exact hp ρ m m' f.name i x hx hm
      · exact .pure hm (.same rfl)
      · exact .throw hm _

theorem evaluates_eval (hp : K.Opens p) (henv : env.Renamed ρ env') (f : Function) :
    K.Evaluates ρ (Interpreted.eval p f env) (Interpreted.eval p f env') :=
  fun _ _ _ o hρ hm => eval_paired hp hm (henv.mono hρ) o

theorem perform_paired (hp : K.Opens p) (hm : K.pairing.holds ρ m m') (henv : env.Renamed ρ env')
    (f : Function) (i : Instr) :
    Paired K.pairing ρ (Interpreted.perform p f env i) m (Interpreted.perform p f env' i) m'
      Signal.Renamed :=
  control_paired (evaluates_eval hp henv f) hm p f i.type i.op

theorem phiValue_paired (hp : K.Opens p) (hm : K.pairing.holds ρ m m') (henv : env.Renamed ρ env')
    (f : Function) (source : Option Nat) (i : Instr) :
    Paired K.pairing ρ (Machine.phiValue Interpreted.rules p f env source i) m
      (Machine.phiValue Interpreted.rules p f env' source i) m'
      fun ρ' x y => x.1 = y.1 ∧ x.2.Renamed ρ' y.2 := by
  unfold Machine.phiValue
  split
  · exact .bind (eval_paired hp hm henv _) fun _ _ _ _ _ _ hm₁ hvw => .pure hm₁ ⟨rfl, hvw⟩
  · exact .throw hm _

/-- The phis of a list come to values that are taken for one another. -/
theorem phis_paired (hp : K.Opens p) (hm : K.pairing.holds ρ m m') (henv : env.Renamed ρ env')
    (f : Function) (source : Option Nat) (is : List Instr) :
    Paired K.pairing ρ (is.mapM (Machine.phiValue Interpreted.rules p f env source)) m
      (is.mapM (Machine.phiValue Interpreted.rules p f env' source)) m'
      fun ρ' vs ws => List.Forall₂ (fun x y => x.1 = y.1 ∧ x.2.Renamed ρ' y.2) vs ws := by
  refine .mapM (R := fun _ => Eq) (fun _ _ _ _ _ hab => hab)
    (fun _ _ _ _ hρ hxy => ⟨hxy.1, hxy.2.mono hρ⟩) hm (List.forall₂_same.mpr fun _ _ => rfl)
    fun ρ' i _ m₁ m₁' hρ hm₁ hi => ?_
  subst hi
  exact phiValue_paired hp hm₁ (henv.mono hρ) f source i

theorem jump_paired (hp : K.Opens p) (hm : K.pairing.holds ρ m m') (hfr : fr.Renamed ρ fr')
    (source : Option Nat) (target : Nat) :
    Paired K.pairing ρ (Machine.jump Interpreted.rules p fr source target) m
      (Machine.jump Interpreted.rules p fr' source target) m' Frame.Renamed := by
  unfold Machine.jump
  rw [hfr.function]
  refine .bind (phis_paired hp hm hfr.env fr.function source _) fun ρ₁ vs ws m₁ m₁' hρ hm₁ hvs =>
    .pure hm₁ ?_
  exact ⟨rfl, (hfr.env.mono hρ).bindAll hvs, rfl, rfl, hfr.pending⟩

theorem bindParams_renamed (ts : List Ty) (hargs : List.Forall₂ (Value.Renamed ρ) args args') (id : Nat) :
    Agree (Env.Renamed ρ) (Machine.bindParams ts args id) (Machine.bindParams ts args' id) := by
  induction hargs generalizing ts id with
  | nil => cases ts <;> exact .ok (.empty ρ)
  | cons hvw _ ih =>
      cases ts with
      | nil => exact .ok (.empty ρ)
      | cons t ts =>
          exact .bind (hvw.normalize t) fun _ _ hxy => .bind (ih ts (id + 1)) fun _ _ henv =>
            .ok (henv.cons id hxy)

theorem enter_paired (hp : K.Opens p) (hm : K.pairing.holds ρ m m') (f : Function)
    (hargs : List.Forall₂ (Value.Renamed ρ) args args') :
    Paired K.pairing ρ (Machine.enter Interpreted.rules p f args) m
      (Machine.enter Interpreted.rules p f args') m' Frame.Renamed := by
  unfold Machine.enter
  split
  · exact .stop (.throw hm _)
  · refine .bind (lift_paired hm (bindParams_renamed f.params hargs 0)) fun ρ₁ env env' m₁ m₁' _ hm₁ henv => ?_
    have hfr : Frame.Renamed ρ₁ ⟨f, env, 0, 0, none⟩ ⟨f, env', 0, 0, none⟩ := ⟨rfl, henv, rfl, rfl, rfl⟩
    exact jump_paired hp hm₁ hfr none 0

theorem enterAt_paired (hp : K.Opens p) (hm : K.pairing.holds ρ m m') (callee : Nat)
    (hargs : List.Forall₂ (Value.Renamed ρ) args args') :
    Paired K.pairing ρ (Machine.enterAt Interpreted.rules p callee args) m
      (Machine.enterAt Interpreted.rules p callee args') m' Frame.Renamed := by
  unfold Machine.enterAt
  split
  · exact enter_paired hp hm _ hargs
  · exact .throw hm _

/-- One step of two machines that are at one place. -/
theorem step_paired (hp : K.Opens p) (hm : K.pairing.holds ρ m m') (hfr : fr.Renamed ρ fr')
    (hwaiting : List.Forall₂ (Frame.Renamed ρ) waiting waiting') :
    Paired K.pairing ρ (Machine.step Interpreted.rules p fr waiting) m
      (Machine.step Interpreted.rules p fr' waiting') m' Machine.State.Renamed := by
  have hmono {ρ' : Renaming} (hρ : ρ'.Extends ρ) : List.Forall₂ (Frame.Renamed ρ') waiting waiting' :=
    hwaiting.imp fun _ _ h => h.mono hρ
  unfold Machine.step
  rw [hfr.current?, hfr.function, hfr.block]
  split
  · exact .throw hm _
  · rename_i i _
    refine .bind (perform_paired hp hm hfr.env fr.function i) fun ρ₁ s s' m₁ m₁' hρ₁ hm₁ hs => ?_
    have hfr₁ := hfr.mono hρ₁
    cases hs with
    | value hvw => exact .pure hm₁ (.running (hfr₁.advance i.id hvw) (hmono hρ₁))
    | goto target =>
        refine .bind (jump_paired hp hm₁ hfr₁ _ target) fun ρ₂ _ _ m₂ m₂' hρ₂ hm₂ hnext => ?_
        exact .pure hm₂ (.running hnext (hmono (hρ₁.trans hρ₂)))
    | call callee hargs =>
        refine .bind (enterAt_paired hp hm₁ callee hargs) fun ρ₂ _ _ m₂ m₂' hρ₂ hm₂ hinner => ?_
        exact .pure hm₂ (.running hinner (.cons ((hfr₁.mono hρ₂).await i.id) (hmono (hρ₁.trans hρ₂))))
    | ret hvw => exact .pure hm₁ (Machine.leave_renamed hvw (hmono hρ₁))

/-- Two machines that are at one place do the same to the end, or until the steps are used up. -/
theorem run_paired (hp : K.Opens p) (hm : K.pairing.holds ρ m m') (hst : st.Renamed ρ st') (steps : Nat) :
    Paired K.pairing ρ (Machine.run Interpreted.rules p steps st) m
      (Machine.run Interpreted.rules p steps st') m' Value.Renamed := by
  induction steps generalizing ρ m m' st st' with
  | zero =>
      cases hst with
      | running => exact .throw hm _
      | done hvw => exact .pure hm hvw
  | succ steps ih =>
      cases hst with
      | running hfr hwaiting =>
          exact .bind (step_paired hp hm hfr hwaiting) fun _ _ _ _ _ _ hm₁ hst₁ => ih hm₁ hst₁
      | done hvw => exact .pure hm hvw

theorem call_paired (hp : K.Opens p) (hm : K.pairing.holds ρ m m') (steps : Nat) (f : Function)
    (hargs : List.Forall₂ (Value.Renamed ρ) args args') :
    Paired K.pairing ρ (Machine.call Interpreted.rules p steps f args) m
      (Machine.call Interpreted.rules p steps f args') m' Value.Renamed :=
  .bind (enter_paired hp hm f hargs) fun _ _ _ _ _ _ hm₁ hfr => run_paired hp hm₁ (.running hfr .nil) steps

/-! ## Cells that are let alone -/

/-- The variables that have a cell are the same on both sides, and their cells are taken for one another.
On the left, variables that had a cell have it, and the cells that are kept are as they were, and taken
for none. -/
def beside (had : Nat → Nat → Prop) (kept : Nat → Cell → Prop) : Ties where
  holds ρ m m' := List.Forall₂ (fun x y => x.1 = y.1 ∧ ρ.pairs x.2 y.2) m.globals m'.globals ∧
    (∀ i id, had i id → m.global? i = some id) ∧
    ∀ a c, kept a c → m.storage.cell? a = some c ∧ ∀ b, ¬ρ.pairs a b
  addCell h c c' := by
    rintro ⟨hglobals, hhad, hkept⟩
    refine ⟨hglobals.imp fun _ _ hxy => ⟨hxy.1, h.next_extends _ _ hxy.2⟩, hhad, fun a k hk => ?_⟩
    obtain ⟨hcell, hfree⟩ := hkept a k hk
    have hne := (Storage.lt_of_cell? hcell).ne
    refine ⟨by rw [Storage.cell?_addCell, if_neg hne, hcell], fun b hab => ?_⟩
    rcases hab with hab | ⟨ha, -⟩
    · exact hfree b hab
    · exact hne ha
  write v w hab := by
    rintro ⟨hglobals, hhad, hkept⟩
    refine ⟨hglobals, hhad, fun x k hk => ?_⟩
    obtain ⟨hcell, hfree⟩ := hkept x k hk
    refine ⟨?_, hfree⟩
    rw [Storage.cell?_write, if_neg, hcell]
    rintro rfl
    exact hfree _ hab

theorem global?_rel {globals globals' : List (Nat × Nat)}
    (h : List.Forall₂ (fun x y => x.1 = y.1 ∧ ρ.pairs x.2 y.2) globals globals') (i : Nat) :
    Option.Rel ρ.pairs (globals.lookup i) (globals'.lookup i) := by
  induction h with
  | nil => exact .none
  | @cons x y xs ys hxy _ ih =>
      obtain ⟨j, a⟩ := x
      obtain ⟨j', b⟩ := y
      obtain ⟨rfl, hab⟩ := hxy
      rw [List.lookup_cons, List.lookup_cons]
      dsimp only
      split
      · exact .some hab
      · exact ih

/-- A variable without a cell is given one that was not there, with its initial value in it. -/
theorem globalCell_of_none (function : String) {i : Nat} (x : Variable) (h : m.global? i = none) :
    (Interpreted.globalCell function i x).on m =
      match Interpreted.initialValue function x with
      | .error e => (.error e, m)
      | .ok v => (.ok (.cell m.storage.cells.size),
        ⟨m.storage.addCell ⟨x.type, v⟩, (i, m.storage.cells.size) :: m.globals⟩) := by
  rw [Interpreted.globalCell, Effect.on_bind_of_ok (Effect.on_get m), h]
  cases Interpreted.initialValue function x <;> rfl

/-- A variable that has a cell comes to it. -/
theorem globalCell_of_some (function : String) {i id : Nat} (x : Variable) (h : m.global? i = some id) :
    (Interpreted.globalCell function i x).on m = (.ok (.cell id), m) := by
  rw [Interpreted.globalCell, Effect.on_bind_of_ok (Effect.on_get m), h]
  rfl

theorem global?_setGlobal (m : Memory) (i id j : Nat) :
    (m.setGlobal i id).global? j = if j = i then some id else m.global? j := by
  unfold Memory.setGlobal Memory.global?
  rw [List.lookup_cons]
  by_cases h : j = i
  · rw [if_pos h, beq_iff_eq.mpr h]
  · rw [if_neg h, beq_eq_false_iff_ne.mpr h]

/-- A variable is given a cell on both sides, or on none. -/
theorem opened_paired (hm : K.pairing.holds ρ m m') {function : String} {i : Nat} {x : Variable}
    (hi : m.global? i = none) (hi' : m'.global? i = none)
    (hset : ∀ c, K.holds hm.1.next
      ({ m with storage := m.storage.addCell c }.setGlobal i m.storage.cells.size)
      ({ m' with storage := m'.storage.addCell c }.setGlobal i m'.storage.cells.size)) :
    Paired K.pairing ρ (Interpreted.globalCell function i x) m (Interpreted.globalCell function i x) m'
      Value.Renamed := by
  have hon := globalCell_of_none function x hi
  have hon' := globalCell_of_none function x hi'
  cases hv : Interpreted.initialValue function x with
  | error e =>
      rw [hv] at hon hon'
      exact .of_on hon hon' hm (.error e)
  | ok v =>
      rw [hv] at hon hon'
      refine ⟨hm.1.next, hm.1.next_extends, ?_, ?_⟩
      · rw [hon, hon']
        exact ⟨hm.1.addCell (.same (Interpreted.initialValue_isCell hv)), hset ⟨x.type, v⟩⟩
      · rw [hon, hon']
        exact .ok (.cell (.inr ⟨rfl, rfl⟩))

/-- Where the variables that have a cell are the same on both sides, and a cell that is made is for both, a
variable has its cell on both sides or is given one on both. -/
theorem opens_of_globals
    (hglobals : ∀ ρ m m', K.holds ρ m m' →
      List.Forall₂ (fun x y => x.1 = y.1 ∧ ρ.pairs x.2 y.2) m.globals m'.globals)
    (hset : ∀ ρ m m' (hm : K.pairing.holds ρ m m') (i : Nat) (c : Cell), m.global? i = none →
      K.holds hm.1.next
        ({ m with storage := m.storage.addCell c }.setGlobal i m.storage.cells.size)
        ({ m' with storage := m'.storage.addCell c }.setGlobal i m'.storage.cells.size)) :
    K.Opens p := by
  intro ρ m m' function i x _ hm
  have hglobal : Option.Rel ρ.pairs (m.global? i) (m'.global? i) := global?_rel (hglobals _ _ _ hm.2) i
  generalize hi : m.global? i = y, hi' : m'.global? i = y' at hglobal
  cases hglobal with
  | some hab => exact .of_on (globalCell_of_some _ x hi) (globalCell_of_some _ x hi') hm (.ok (.cell hab))
  | none => exact opened_paired hm hi hi' fun c => hset _ _ _ hm i c hi

theorem beside_opens (had : Nat → Nat → Prop) (kept : Nat → Cell → Prop) (p : Program) :
    (beside had kept).Opens p := by
  refine opens_of_globals (fun _ _ _ h => h.1) fun ρ m m' hm i c hi => ?_
  obtain ⟨hglobals, hhad, hkept⟩ := (beside had kept).addCell hm.1 c c hm.2
  refine ⟨.cons ⟨rfl, .inr ⟨rfl, rfl⟩⟩ hglobals, fun j id hj => ?_, hkept⟩
  have hid := hhad j id hj
  rw [global?_setGlobal, if_neg, hid]
  rintro rfl
  nomatch hid.symm.trans hi

end Ties

end Ssa

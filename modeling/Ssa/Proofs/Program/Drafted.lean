/-
# `Ssa.Proofs.Program.Drafted` — drafts leave modules built

A body is built from a draft of it: the keys of the draft come to stand for operands, and each
operand that a key stands for is known.  So every instruction is made of known operands, whatever
the draft asks for, and also if the draft is refused half-way.

**Proved here.**

    what a value of a draft comes to is known                                   (`resolve_meets`)
    what an instruction of a draft asks for comes to a known operand             (`perform_meets`)
    bodies and whole drafts leave a module built                                 (`buildBody_meets`, `apply_meets`)
    every module that is made step by step is built                               (`Made.isBuilt`)
-/
import Ssa.Proofs.Program.Building
import Ssa.Program.Render

namespace Ssa

/-! ## Operations over written operands -/

section

variable {Value Target : Type} {K : Keeping Workbench} {value : Value → Build Operand}
  {target : Target → Build Nat} {w : Workbench} {P : Workbench → Operand → Prop}
  {Q : Workbench → Nat → Prop}
  (hP : ∀ w w' o, K.grows w w' → P w o → P w' o)
  (hQ : ∀ w w' t, K.grows w w' → Q w t → Q w' t)
  (hvalue : ∀ v w', K.holds w' → K.grows w w' →
    Effect.Meets K (value v) w' P fun _ => True)
  (htarget : ∀ t w', K.holds w' → K.grows w w' →
    Effect.Meets K (target t) w' Q fun _ => True)
include hP hQ hvalue htarget

/-- The operation that an operation of a draft comes to has operands of which a condition holds, if
it holds of what each operand of the draft comes to; and so with the blocks that it leads to. -/
theorem OpOver.traverse_meets (hw : K.holds w) (op : OpOver Value Target) :
    Effect.Meets K (op.traverse value target) w
      (fun w' op => (∀ o ∈ op.values, P w' o) ∧ ∀ t ∈ op.targets, Q w' t) fun _ => True := by
  have one (g : Operand → Op) (hg : ∀ a, (g a).values = [a]) (ht : ∀ a, (g a).targets = [])
      (a : Value) :
      Effect.Meets K (do return g (← value a)) w
        (fun w' op => (∀ o ∈ op.values, P w' o) ∧ ∀ t ∈ op.targets, Q w' t) fun _ => True :=
    .bind (hvalue a w hw (K.refl w)) fun x w₁ _ hw₁ _ hx =>
      .pure hw₁ (by simpa [hg, ht] using hx)
  have two (g : Operand → Operand → Op) (hg : ∀ a b, (g a b).values = [a, b])
      (ht : ∀ a b, (g a b).targets = []) (a b : Value) :
      Effect.Meets K (do return g (← value a) (← value b)) w
        (fun w' op => (∀ o ∈ op.values, P w' o) ∧ ∀ t ∈ op.targets, Q w' t) fun _ => True := by
    refine .bind (hvalue a w hw (K.refl w)) fun x w₁ _ hw₁ hg₁ hx => ?_
    refine .bind (hvalue b w₁ hw₁ hg₁) fun y w₂ _ hw₂ hg₂ hy => .pure hw₂ ?_
    simpa [hg, ht] using ⟨hP _ _ _ hg₂ hx, hy⟩
  have three (g : Operand → Operand → Operand → Op)
      (hg : ∀ a b c, (g a b c).values = [a, b, c]) (ht : ∀ a b c, (g a b c).targets = [])
      (a b c : Value) :
      Effect.Meets K (do return g (← value a) (← value b) (← value c)) w
        (fun w' op => (∀ o ∈ op.values, P w' o) ∧ ∀ t ∈ op.targets, Q w' t) fun _ => True := by
    refine .bind (hvalue a w hw (K.refl w)) fun x w₁ _ hw₁ hg₁ hx => ?_
    refine .bind (hvalue b w₁ hw₁ hg₁) fun y w₂ _ hw₂ hg₂ hy => ?_
    refine .bind (hvalue c w₂ hw₂ (K.trans hg₁ hg₂)) fun z w₃ _ hw₃ hg₃ hz => .pure hw₃ ?_
    simpa [hg, ht] using ⟨hP _ _ _ (K.trans hg₂ hg₃) hx, hP _ _ _ hg₃ hy, hz⟩
  have entries (es : List (Value × Target)) {w₁ : Workbench} (hw₁ : K.holds w₁)
      (hg₁ : K.grows w w₁) :
      Effect.Meets K (es.mapM fun e => do return (← value e.1, ← target e.2)) w₁
        (fun w' es => (∀ o ∈ es.map Prod.fst, P w' o) ∧ ∀ t ∈ es.map Prod.snd, Q w' t)
        fun _ => True := by
    refine (Effect.Meets.mapM_all (T := fun w' (e : Operand × Nat) => P w' e.1 ∧ Q w' e.2)
      (fun _ _ _ hg h => ⟨hP _ _ _ hg h.1, hQ _ _ _ hg h.2⟩) es hw₁ fun e _ w₂ hw₂ hg₂ => ?_).mono
      fun w' es' h => ⟨fun o ho => ?_, fun t ht => ?_⟩
    · refine .bind (hvalue e.1 w₂ hw₂ (K.trans hg₁ hg₂)) fun x w₃ _ hw₃ hg₃ hx => ?_
      exact .bind (htarget e.2 w₃ hw₃ (K.trans hg₁ (K.trans hg₂ hg₃)))
        fun y w₄ _ hw₄ hg₄ hy => .pure hw₄ ⟨hP _ _ _ hg₄ hx, hy⟩
    · obtain ⟨e', he', rfl⟩ := List.mem_map.mp ho
      exact (h e' he').1
    · obtain ⟨e', he', rfl⟩ := List.mem_map.mp ht
      exact (h e' he').2
  have many (vs : List Value) {w₁ : Workbench} (hw₁ : K.holds w₁) (hg₁ : K.grows w w₁) :
      Effect.Meets K (vs.mapM value) w₁ (fun w' os => ∀ o ∈ os, P w' o) fun _ => True :=
    .mapM_all (T := P) hP vs hw₁ fun v _ w₂ hw₂ hg₂ => hvalue v w₂ hw₂ (K.trans hg₁ hg₂)
  cases op with
  | int op a b => exact two (.int op) (fun _ _ => rfl) (fun _ _ => rfl) a b
  | fp op a b => exact two (.fp op) (fun _ _ => rfl) (fun _ _ => rfl) a b
  | fneg a => exact one .fneg (fun _ => rfl) (fun _ => rfl) a
  | icmp p a b => exact two (.icmp p) (fun _ _ => rfl) (fun _ _ => rfl) a b
  | fcmp p a b => exact two (.fcmp p) (fun _ _ => rfl) (fun _ _ => rfl) a b
  | cast op a => exact one (.cast op) (fun _ => rfl) (fun _ => rfl) a
  | select c a b => exact three .select (fun _ _ _ => rfl) (fun _ _ _ => rfl) c a b
  | phi incoming =>
      exact .bind (entries incoming hw (K.refl w)) fun es w₁ _ hw₁ _ hes =>
        .pure hw₁ ⟨hes.1, by simp [targets]⟩
  | alloca t count =>
      cases count with
      | none => exact .pure hw (by simp [values, operands, targets])
      | some n => exact one (fun n => .alloca t (some n)) (fun _ => rfl) (fun _ => rfl) n
  | load p => exact one .load (fun _ => rfl) (fun _ => rfl) p
  | store v p => exact two .store (fun _ _ => rfl) (fun _ _ => rfl) v p
  | call f args =>
      refine .bind (hvalue f w hw (K.refl w)) fun x w₁ _ hw₁ hg₁ hx => ?_
      refine .bind (many args hw₁ hg₁) fun os w₂ _ hw₂ hg₂ hos => .pure hw₂ ?_
      simpa [values, operands, targets] using ⟨hP _ _ _ hg₂ hx, hos⟩
  | br t =>
      exact .bind (htarget t w hw (K.refl w)) fun b w₁ _ hw₁ _ hb =>
        .pure hw₁ (by simpa [values, operands, targets] using hb)
  | condBr c t e =>
      refine .bind (hvalue c w hw (K.refl w)) fun x w₁ _ hw₁ hg₁ hx => ?_
      refine .bind (htarget t w₁ hw₁ hg₁) fun b w₂ _ hw₂ hg₂ hb => ?_
      refine .bind (htarget e w₂ hw₂ (K.trans hg₁ hg₂)) fun b' w₃ _ hw₃ hg₃ hb' => .pure hw₃ ?_
      simpa [values, operands, targets] using
        ⟨hP _ _ _ (K.trans hg₂ hg₃) hx, hQ _ _ _ hg₃ hb, hb'⟩
  | switch v d cases =>
      refine .bind (hvalue v w hw (K.refl w)) fun x w₁ _ hw₁ hg₁ hx => ?_
      refine .bind (htarget d w₁ hw₁ hg₁) fun b w₂ _ hw₂ hg₂ hb => ?_
      refine .bind (entries cases hw₂ (K.trans hg₁ hg₂)) fun es w₃ _ hw₃ hg₃ hes => .pure hw₃ ?_
      exact ⟨List.forall_mem_cons.mpr ⟨hP _ _ _ (K.trans hg₂ hg₃) hx, hes.1⟩,
        List.forall_mem_cons.mpr ⟨hQ _ _ _ hg₃ hb, hes.2⟩⟩
  | ret v =>
      cases v with
      | none => exact .pure hw (by simp [values, operands, targets])
      | some v => exact one (fun v => .ret (some v)) (fun _ => rfl) (fun _ => rfl) v
  | unreachable => exact .pure hw (by simp [values, operands, targets])
  | indirectBr a ts =>
      refine .bind (hvalue a w hw (K.refl w)) fun x w₁ _ hw₁ hg₁ hx => ?_
      refine .bind (.mapM_all (T := Q) hQ ts hw₁
        fun t _ w₂ hw₂ hg₂ => htarget t w₂ hw₂ (K.trans hg₁ hg₂)) fun bs w₂ _ hw₂ hg₂ hbs => ?_
      exact .pure hw₂ (by simpa [values, operands, targets] using ⟨hP _ _ _ hg₂ hx, hbs⟩)
  | invoke f args n u =>
      refine .bind (hvalue f w hw (K.refl w)) fun x w₁ _ hw₁ hg₁ hx => ?_
      refine .bind (many args hw₁ hg₁) fun os w₂ _ hw₂ hg₂ hos => ?_
      refine .bind (htarget n w₂ hw₂ (K.trans hg₁ hg₂)) fun b w₃ _ hw₃ hg₃ hb => ?_
      refine .bind (htarget u w₃ hw₃ (K.trans hg₁ (K.trans hg₂ hg₃))) fun b' w₄ _ hw₄ hg₄ hb' =>
        .pure hw₄ ⟨List.forall_mem_cons.mpr ⟨?_, fun o ho => ?_⟩, ?_⟩
      · exact hP _ _ _ (K.trans hg₂ (K.trans hg₃ hg₄)) hx
      · exact hP _ _ _ (K.trans hg₃ hg₄) (hos o ho)
      · simpa [targets] using ⟨hQ _ _ _ hg₄ hb, hb'⟩
  | address p is =>
      refine .bind (hvalue p w hw (K.refl w)) fun x w₁ _ hw₁ hg₁ hx => ?_
      refine .bind (many is hw₁ hg₁) fun os w₂ _ hw₂ hg₂ hos => .pure hw₂ ?_
      simpa [values, operands, targets] using ⟨hP _ _ _ hg₂ hx, hos⟩
  | extractValue a path => exact one (.extractValue · path) (fun _ => rfl) (fun _ => rfl) a
  | insertValue a b path =>
      exact two (.insertValue · · path) (fun _ _ => rfl) (fun _ _ => rfl) a b
  | extractElement a i => exact two .extractElement (fun _ _ => rfl) (fun _ _ => rfl) a i
  | insertElement a b i =>
      exact three .insertElement (fun _ _ _ => rfl) (fun _ _ _ => rfl) a b i
  | atomicUpdate op p v => exact two (.atomicUpdate op) (fun _ _ => rfl) (fun _ _ => rfl) p v
  | compareExchange p e v =>
      exact three .compareExchange (fun _ _ _ => rfl) (fun _ _ _ => rfl) p e v
  | atomicLoad p => exact one .atomicLoad (fun _ => rfl) (fun _ => rfl) p
  | atomicStore v p => exact two .atomicStore (fun _ _ => rfl) (fun _ _ => rfl) v p
  | fence => exact .pure hw (by simp [values, operands, targets])
  | comment text => exact .pure hw (by simp [values, operands, targets])

end

namespace Draft

open Build (Meets keeping)

variable {w : Workbench}

/-! ## Values -/

/-- What the keys of a body stand for is known. -/
def Progress.Known (m : Module) (p : Progress) : Prop := ∀ e ∈ p.values, e.2.KnownIn m p.fn

theorem Progress.Known.mono {m m' : Module} {p : Progress} (h : p.Known m) (hm : m.Grows m') :
    p.Known m' := fun e he => (h e he).mono hm

theorem mem_of_lookup {α : Type} {entries : List (String × α)} {key : String} {a : α}
    (h : entries.lookup key = some a) : (key, a) ∈ entries := by
  induction entries with
  | nil => cases h
  | cons e rest ih =>
      obtain ⟨k, b⟩ := e
      rw [List.lookup_cons] at h
      split at h
      · rename_i heq
        cases h
        cases eq_of_beq heq
        exact List.mem_cons_self
      · exact List.mem_cons_of_mem _ (ih h)

theorem look_meets {α : Type} (hw : w.module.IsBuilt) (entries : List (String × α))
    (key : String) : Meets (look entries key) w fun w' a => w' = w ∧ (key, a) ∈ entries := by
  unfold look
  split
  · exact .pure hw ⟨rfl, mem_of_lookup ‹_›⟩
  · exact .throw hw trivial

theorem symbolOperand_meets (hw : w.module.IsBuilt) (name : String) (fn : Nat) :
    Meets (symbolOperand name) w fun w' o => o.KnownIn w'.module fn := by
  refine .bind (.read hw) fun w₂ w₂' _ _ _ hread => ?_
  obtain ⟨rfl, rfl⟩ := hread
  dsimp only
  split
  · rename_i o ho
    obtain ⟨i, -, hi⟩ := Option.bind_eq_some_iff.mp ho
    obtain ⟨s, hs, rfl⟩ := Option.map_eq_some_iff.mp hi
    exact .pure hw (by rw [Operand.KnownIn, hs]; rfl)
  · exact .throw hw trivial

theorem makeConstant_meets (hw : w.module.IsBuilt) (r : Recipe) :
    Meets (makeConstant r) w fun _ _ => True := by
  refine .bind (Build.mention_meets hw _) fun _ w₁ _ hw₁ _ _ => ?_
  refine .bind (.read hw₁) fun w₂ w₂' _ hw₂ _ hread => ?_
  exact (Meets.lift hw₂).mono fun _ _ _ => trivial

/-- What a value of a draft comes to is known, if the keys of the body stand for what is known. -/
theorem Value.resolve_meets {p : Progress} (hw : w.module.IsBuilt) (hp : p.Known w.module)
    (v : Value) : Meets (v.resolve p) w fun w' o => o.KnownIn w'.module p.fn := by
  cases v with
  | key k =>
      refine (look_meets hw p.values k).mono fun w' o ho => ?_
      obtain ⟨rfl, hmem⟩ := ho
      exact hp _ hmem
  | symbol name => exact symbolOperand_meets hw name p.fn
  | constant r => exact .bind (makeConstant_meets hw r) fun _ w₁ _ hw₁ _ _ => .pure hw₁ trivial

theorem intrinsicOperand_meets (hw : w.module.IsBuilt) (which : Intrinsic) (t : Ty) (fn : Nat) :
    Meets (intrinsicOperand which t) w fun w' o => o.KnownIn w'.module fn := by
  unfold intrinsicOperand
  dsimp only
  split
  · rw [pure_bind]
    refine .bind (.read hw) fun w₂ w₂' _ hw₂ _ hread => ?_
    obtain ⟨rfl, rfl⟩ := hread
    split
    · refine .bind (.bind (Build.declareFunction_meets hw₂ _ _ _ _) fun _ w₃ _ hw₃ _ _ =>
        .pure (P := fun _ _ => True) hw₃ trivial) fun _ w₃ _ hw₃ _ _ => ?_
      exact symbolOperand_meets hw₃ _ fn
    · exact symbolOperand_meets hw₂ _ fn
  · exact .bind (.throw (P := fun _ _ => True) hw trivial) fun _ _ hon => by cases hon

/-! ## Bodies -/

theorem fillConstant_meets (hw : w.module.IsBuilt) (v : Int) (t : Ty) (fn : Nat) :
    Meets (fillConstant v t) w fun w' o => o.KnownIn w'.module fn := by
  refine .bind (.read hw) fun w₂ w₂' _ hw₂ _ _ => ?_
  exact .bind (Meets.lift hw₂) fun _ w₃ _ hw₃ _ _ => .pure hw₃ trivial

theorem resolveCase_meets (hw : w.module.IsBuilt) (p : Progress) (t : Ty) (label : CaseLabel)
    (target : String) : Meets (resolveCase p t label target) w fun _ _ => True := by
  cases label with
  | constant r =>
      refine .bind (makeConstant_meets hw r) fun c w₁ _ hw₁ _ _ => ?_
      exact .bind (look_meets hw₁ _ _) fun b w₂ _ hw₂ _ _ => .pure hw₂ trivial
  | number content =>
      refine .bind (look_meets hw _ _) fun b w₁ _ hw₁ _ _ => ?_
      refine .bind (.read hw₁) fun w₂ w₂' _ hw₂ _ _ => ?_
      exact .bind (Meets.lift hw₂) fun c w₃ _ hw₃ _ _ => .pure hw₃ trivial

theorem mention_each (hw : w.module.IsBuilt) (ts : List Ty) :
    Meets (forIn ts PUnit.unit fun t _ => do
      Build.mention t
      pure (ForInStep.yield PUnit.unit)) w fun _ _ => True :=
  .each hw fun t _ _ hw₁ _ => Build.mention_meets hw₁ t

/-- Adding a case to a switch keeps its type and its operands known. -/
theorem stays_switch (m : Module) (fn : Nat) (c : Constant) (b : Nat) :
    Build.Stays m fn fun op => match op with
      | .switch v d cases => .switch v d (cases ++ [(.const c, b)])
      | op => op := by
  intro op t hknown hasked
  cases op with
  | switch v d cases =>
      refine ⟨fun o ho => ?_, hasked⟩
      simp only [OpOver.values, OpOver.operands, List.map_append, List.mem_cons, List.mem_append,
        List.map_cons, List.map_nil, List.not_mem_nil, or_false] at ho
      rcases ho with rfl | ho | rfl
      · exact hknown _ (by simp [OpOver.values, OpOver.operands])
      · exact hknown o (by simp [OpOver.values, OpOver.operands, List.mem_map.mp ho])
      · trivial
  | _ => exact ⟨hknown, hasked⟩

/-- So does adding a target to a branch to an address. -/
theorem stays_indirectBr (m : Module) (fn b : Nat) :
    Build.Stays m fn fun op => match op with
      | .indirectBr a targets => .indirectBr a (targets ++ [b])
      | op => op := by
  intro op t hknown hasked
  cases op with
  | _ => exact ⟨hknown, hasked⟩

/-- What an instruction of a draft asks for comes to a known operand. -/
theorem Action.perform_meets {p : Progress} (hw : w.module.IsBuilt) (hp : p.Known w.module)
    (block : Nat) (name : String) (a : Action) :
    Meets (a.perform p block name) w fun w' o => o.KnownIn w'.module p.fn := by
  have hresolve (v : Value) (w' : Workbench) (hw' : w'.module.IsBuilt)
      (hg : w.module.Grows w'.module) :
      Meets (v.resolve p) w' fun w'' o => o.KnownIn w''.module p.fn :=
    v.resolve_meets hw' (hp.mono hg)
  cases a with
  | op o =>
      refine .bind (mention_each hw _) fun _ w₁ _ hw₁ hg₁ _ => ?_
      refine .bind (OpOver.traverse_meets (K := keeping) (w := w₁)
        (P := fun w' o => o.KnownIn w'.module p.fn) (Q := fun _ _ => True)
        (fun _ _ _ hg h => h.mono hg) (fun _ _ _ _ _ => trivial)
        (fun v w' hw' hg => hresolve v w' hw' (hg₁.trans hg))
        (fun t w' hw' _ => (look_meets hw' _ t).mono fun _ _ _ => trivial) hw₁ o)
        fun resolved w₂ _ hw₂ _ hresolved => ?_
      exact Build.emit_meets hw₂ hresolved.1
  | switch v d cases =>
      refine .bind (hresolve v w hw (.refl _)) fun x w₁ _ hw₁ _ hx => ?_
      refine .bind (look_meets hw₁ _ d) fun d w₂ _ hw₂ hg₂ _ => ?_
      refine Build.emitGrowing_meets hw₂ (by simpa [OpOver.values, OpOver.operands] using hx.mono hg₂)
        fun part _ w₃ hw₃ _ => ?_
      exact .bind (resolveCase_meets hw₃ p _ part.1 part.2) fun (c, b) w₄ _ hw₄ _ _ =>
        .pure hw₄ (stays_switch _ _ c b)
  | indirectBr a targets =>
      refine .bind (hresolve a w hw (.refl _)) fun x w₁ _ hw₁ _ hx => ?_
      refine Build.emitGrowing_meets hw₁ (by simpa [OpOver.values, OpOver.operands] using hx)
        fun part _ w₂ hw₂ _ => ?_
      exact .bind (look_meets hw₂ _ part) fun b w₃ _ hw₃ _ _ =>
        .pure hw₃ (stays_indirectBr _ _ b)
  | cast c a t =>
      refine .bind (hresolve a w hw (.refl _)) fun x w₁ _ hw₁ _ hx => ?_
      refine .bind (Build.mention_meets hw₁ t) fun _ w₂ _ hw₂ hg₂ _ => ?_
      split
      · exact .pure hw₂ (hx.mono hg₂)
      · exact Build.emit_meets hw₂ (by simpa [OpOver.values, OpOver.operands] using hx.mono hg₂)
  | phi t incoming =>
      refine .bind (Build.mention_meets hw t) fun _ w₁ _ hw₁ _ _ => ?_
      exact Build.emit_meets hw₁ (by simp [OpOver.values])
  | negate a | complement a =>
      refine .bind (hresolve a w hw (.refl _)) fun x w₁ _ hw₁ _ hx => ?_
      refine .bind (fillConstant_meets hw₁ _ _ p.fn) fun y w₂ _ hw₂ hg₂ hy => ?_
      exact Build.emit_meets hw₂
        (by simpa [OpOver.values, OpOver.operands, hy] using hx.mono hg₂)
  | intrinsic which args =>
      refine .bind (.mapM_all (T := fun w' o => o.KnownIn w'.module p.fn)
        (fun _ _ _ hg h => h.mono hg) args hw fun v _ w₁ hw₁ hg₁ => hresolve v w₁ hw₁ hg₁)
        fun os w₁ _ hw₁ _ hos => ?_
      refine .bind (Meets.lift hw₁) fun t w₂ _ hw₂ _ hlift => ?_
      obtain ⟨rfl, -⟩ := hlift
      refine .bind (intrinsicOperand_meets hw₂ which t p.fn) fun callee w₃ _ hw₃ hg₃ hc => ?_
      refine Build.emit_meets hw₃ fun o ho => ?_
      rcases List.mem_cons.mp ho with rfl | ho
      · exact hc
      · exact (hos o ho).mono hg₃
  | unknownPredicate a b =>
      refine .bind (P := fun _ _ => True) (.bind (hresolve a w hw (.refl _))
        fun _ w₁ _ hw₁ _ _ => .pure hw₁ trivial) fun _ w₁ _ hw₁ hg₁ _ => ?_
      refine .bind (P := fun _ _ => True) (.bind (hresolve b w₁ hw₁ hg₁)
        fun _ w₂ _ hw₂ _ _ => .pure hw₂ trivial) fun _ w₂ _ hw₂ _ _ => ?_
      exact .throw hw₂ trivial

theorem Step.build_meets {p : Progress} (hw : w.module.IsBuilt) (hp : p.Known w.module)
    (block : Nat) (s : Step) :
    Meets (s.build block p) w fun w' p' => p'.Known w'.module ∧ p'.fn = p.fn := by
  refine .bind (Action.perform_meets hw hp block s.name s.action) fun o w₁ _ hw₁ hg₁ ho => ?_
  refine .pure hw₁ ⟨fun e he => ?_, rfl⟩
  dsimp only at he ⊢
  split at he
  · rcases List.mem_cons.mp he with rfl | he
    · exact ho
    · exact (hp.mono hg₁) e he
  · exact (hp.mono hg₁) e he

theorem setPhi_meets {p : Progress} (hw : w.module.IsBuilt) (hp : p.Known w.module)
    (phi : Nat × Nat × List (Value × String)) : Meets (setPhi p phi) w fun _ _ => True := by
  obtain ⟨block, id, incoming⟩ := phi
  refine .bind (.mapM_all (T := fun w' (e : Operand × Nat) => e.1.KnownIn w'.module p.fn)
    (fun _ _ _ hg h => h.mono hg) incoming hw fun e _ w₁ hw₁ hg₁ => ?_)
    fun es w₁ _ hw₁ _ hes => Build.setIncoming_meets hw₁ hes
  refine .bind (e.1.resolve_meets hw₁ (hp.mono hg₁)) fun o w₂ _ hw₂ _ ho => ?_
  refine .bind (look_meets hw₂ _ e.2) fun b w₃ _ hw₃ hg₃ _ => ?_
  exact .pure hw₃ (ho.mono hg₃)

/-- The keys of the parameters stand for what is known. -/
theorem paramValues_known {m : Module} {fn : Nat} {f : Ssa.Function} (hf : m.function? fn = some f)
    (hb : f.IsBuilt m) : ∀ e ∈ paramValues f, e.2.KnownIn m fn := by
  intro e he
  obtain ⟨j, hj, rfl⟩ := List.mem_mapIdx.mp he
  obtain ⟨l, hl, ht⟩ := hb.params j _ (List.getElem?_eq_getElem hj)
  exact ⟨f, hf, by rw [hl, Option.map_some, ht]⟩

/-- A body leaves the module built. -/
theorem buildBody_meets (hw : w.module.IsBuilt) (fn : Nat) (blocks : List Block) :
    Meets (buildBody fn blocks) w fun _ _ => True := by
  refine .bind (.read hw) fun w₂ w₂' _ hw₂ _ hread => ?_
  obtain ⟨rfl, rfl⟩ := hread
  split
  · exact .throw hw trivial
  · rename_i f hf
    refine .bind (.mapM_all (T := fun _ _ => True) (fun _ _ _ _ _ => trivial) blocks hw
      fun b _ w₁ hw₁ _ => Build.appendBlock_meets hw₁ fn b.name) fun ids w₁ _ hw₁ hg₁ _ => ?_
    have hstart : ∀ e ∈ paramValues f, e.2.KnownIn w₁.module fn := fun e he =>
      (paramValues_known hf (hw fn f hf) e he).mono hg₁
    refine .bind (.foldlM (Q := fun (w' : Workbench) (p : Progress) => p.Known w'.module) hw₁ hstart
      fun part _ p w₂ hw₂ hg₂ hp => ?_) fun p w₂ _ hw₂ _ hp => ?_
    · refine .foldlM hw₂ hp fun s _ p' w₃ hw₃ _ hp' => ?_
      exact (Step.build_meets hw₃ hp' _ s).mono fun _ _ h => h.1
    · exact .bind (.each hw₂ fun phi _ w₃ hw₃ hg₃ => setPhi_meets hw₃ (hp.mono hg₃) phi)
        fun _ w₃ _ hw₃ _ _ => .pure hw₃ trivial

/-! ## Whole drafts -/

theorem Variable.declare_meets (hw : w.module.IsBuilt) (v : Variable) :
    Meets v.declare w fun _ _ => True := by
  refine .bind (Build.mention_meets hw _) fun _ w₁ _ hw₁ _ _ => ?_
  exact .bind (Build.addVariable_meets hw₁ _ _) fun _ w₂ _ hw₂ _ _ => .pure hw₂ trivial

theorem setInitializer_isBuilt {m : Module} (h : m.IsBuilt) (i : Nat) (init : Operand) :
    (m.setInitializer i init).IsBuilt ∧ m.Grows (m.setInitializer i init) := by
  unfold Module.setInitializer
  split
  · rename_i v hv
    exact h.replaceVariable hv rfl
  · exact ⟨h, .refl _⟩

theorem Variable.bind_meets (hw : w.module.IsBuilt) (v : Variable) :
    Meets v.bind w fun _ _ => True := by
  unfold Variable.bind
  split
  · exact .pure hw trivial
  · rename_i init _
    refine .bind (init.resolve_meets hw (p := ⟨0, [], [], []⟩) (by simp [Progress.Known]))
      fun o w₁ _ hw₁ _ _ => ?_
    refine .bind (.read hw₁) fun w₂ w₂' _ hw₂ _ hread => ?_
    obtain ⟨rfl, rfl⟩ := hread
    split
    · exact (Build.modifyModule_meets (setInitializer_isBuilt hw₂ _ o)).mono fun _ _ _ => trivial
    · exact .throw hw₂ trivial

theorem Function.declare_meets (hw : w.module.IsBuilt) (f : Function) :
    Meets f.declare w fun _ _ => True := by
  refine .bind (Build.mention_meets hw _) fun _ w₁ _ hw₁ _ _ => ?_
  refine .bind (Build.addFunction_meets hw₁ _ _ _ _) fun i w₂ _ hw₂ _ _ => ?_
  exact .bind (Build.adopt_meets hw₂ i) fun _ w₃ _ hw₃ _ _ => .pure hw₃ trivial

theorem declareType_meets (hw : w.module.IsBuilt) (t : String × Option (List Ty)) :
    Meets (declareType t) w fun _ _ => True := by
  obtain ⟨name, body⟩ := t
  refine .bind (Build.mention_meets hw _) fun _ w₁ _ hw₁ _ _ => ?_
  cases body with
  | none => exact .pure hw₁ trivial
  | some fields =>
      refine .bind (mention_each hw₁ fields) fun _ w₂ _ hw₂ _ _ => ?_
      refine .bind (.read hw₂) fun w₃ w₃' _ hw₃ _ hread => ?_
      obtain ⟨rfl, rfl⟩ := hread
      refine .bind (Meets.lift hw₃) fun types w₄ _ _ _ hlift => ?_
      obtain ⟨rfl, -⟩ := hlift
      exact ⟨hw₃, .refl _, fun _ _ _ => trivial, fun _ _ _ => trivial⟩

end Draft

/-- Applying a draft leaves the module built, also where it fails. -/
theorem Draft.apply_meets {w : Workbench} (hw : w.module.IsBuilt) (d : Draft) :
    Build.Meets d.apply w fun _ _ => True := by
  refine .bind (.each hw fun t _ w₁ hw₁ _ => declareType_meets hw₁ t) fun _ w₁ _ hw₁ _ _ => ?_
  refine .bind (.each hw₁ fun v _ w₂ hw₂ _ => Variable.declare_meets hw₂ v)
    fun _ w₂ _ hw₂ _ _ => ?_
  refine .bind (.mapM_all (T := fun _ _ => True) (fun _ _ _ _ _ => trivial) _ hw₂
    fun f _ w₃ hw₃ _ => Function.declare_meets hw₃ f) fun ids w₃ _ hw₃ _ _ => ?_
  refine .bind (.each hw₃ fun v _ w₄ hw₄ _ => Variable.bind_meets hw₄ v) fun _ w₄ _ hw₄ _ _ => ?_
  refine .bind (.loop hw₄ fun part _ w₅ hw₅ _ => ?_) fun _ w₅ _ hw₅ _ _ => .pure hw₅ trivial
  obtain ⟨f, i⟩ := part
  dsimp only
  split
  · exact .bind (buildBody_meets hw₅ i _) fun _ w₆ _ hw₆ _ _ => .pure hw₆ rfl
  · exact .pure hw₅ rfl

/-! ## Modules that are made -/

/-- The modules that are made step by step from one that declares nothing: by what a session does
to them, with whatever structures and whatever table it has at that time. -/
inductive Module.Made : Module → Prop
  | empty (name : String) : Made (.empty name)
  | drafted {m : Module} (types : TypeTable) (table : List Nat) (d : Draft) :
      Made m → Made (d.apply.on ⟨types, m, table⟩).2.module
  | body {m : Module} (types : TypeTable) (table : List Nat) (fn : Nat)
      (blocks : List Draft.Block) :
      Made m → Made ((Draft.buildBody fn blocks).on ⟨types, m, table⟩).2.module
  | block {m : Module} (types : TypeTable) (table : List Nat) (fn : Nat) (name : String) :
      Made m → Made ((Build.appendBlock fn name).on ⟨types, m, table⟩).2.module
  | function {m m' : Module} {i : Nat} (name : String) (result : Ty) (params : List Ty)
      (variadic : Bool) :
      Made m → m.declareFunction name result params variadic = .ok (i, m') → Made m'
  | global {m m' : Module} {i : Nat} (name : String) (type : Ty) :
      Made m → m.addVariable name type = .ok (i, m') → Made m'
  | initializer {m : Module} (i : Nat) (init : Operand) : Made m → Made (m.setInitializer i init)
  | rendered {m : Module} (types : TypeTable) : Made m → Made (m.render types).2

namespace Module

variable {m : Module}

theorem declareFunction_isBuilt {m' : Module} {i : Nat} {name : String} {result : Ty}
    {params : List Ty} {variadic : Bool} (h : m.IsBuilt)
    (hd : m.declareFunction name result params variadic = .ok (i, m')) :
    m'.IsBuilt ∧ m.Grows m' :=
  declare_isBuilt h (fun f hf => by cases hf; exact Function.declare_isBuilt _ _ _ _ _) hd

theorem addVariable_isBuilt {m' : Module} {i : Nat} {name : String} {type : Ty} (h : m.IsBuilt)
    (hd : m.addVariable name type = .ok (i, m')) : m'.IsBuilt ∧ m.Grows m' := by
  unfold addVariable declareVariable at hd
  split at hd
  · cases hd
  · split at hd
    · cases hd
    · exact declare_isBuilt h (fun f hf => by cases hf) hd

/-- A symbol as it is before and after rendering: at most the line of a variable was fixed. -/
def Symbol.Fixed (s s' : Symbol) : Prop :=
  s' = s ∨ ∃ v shown, s = .variable v ∧ s' = .variable { v with shown }

theorem Symbol.Fixed.grows {s s' : Symbol} (h : Symbol.Fixed s s') : s.Grows s' := by
  rcases h with rfl | ⟨v, shown, rfl, rfl⟩
  · exact Symbol.Grows.refl _
  · exact (rfl : v.type = v.type)

theorem Symbol.Fixed.function {s : Symbol} {f : Function}
    (h : Symbol.Fixed s (.function f)) : s = .function f := by
  rcases h with h | ⟨v, shown, -, h⟩
  · exact h.symm
  · cases h

theorem Symbol.render_fixed (m : Module) (s : Symbol) : Symbol.Fixed s (s.render m).2 := by
  rcases s with v | f
  · unfold Symbol.render
    dsimp only
    split
    · exact .inr ⟨v, _, rfl, rfl⟩
    · exact .inl rfl
  · exact .inl rfl

theorem renderSymbols_fixed (m : Module) (ss : List Symbol) :
    List.Forall₂ Symbol.Fixed ss (renderSymbols m ss).2 := by
  induction ss with
  | nil => exact .nil
  | cons s ss ih =>
      have hs := Symbol.render_fixed m s
      unfold renderSymbols
      rcases hr : s.render m with ⟨_ | _, s'⟩ <;> rw [hr] at hs
      · exact .cons hs (List.forall₂_same.mpr fun _ _ => .inl rfl)
      · exact .cons hs ih

theorem symbol_render {types : TypeTable} {k : Nat} {s' : Symbol}
    (h : (m.render types).2.symbols[k]? = some s') :
    ∃ s, m.symbols[k]? = some s ∧ Symbol.Fixed s s' := by
  obtain ⟨hlen, hget⟩ := List.forall₂_iff_get.mp (renderSymbols_fixed m m.symbols.toList)
  have h' : (renderSymbols m m.symbols.toList).2[k]? = some s' := List.getElem?_toArray.symm.trans h
  obtain ⟨hk, rfl⟩ := List.getElem?_eq_some_iff.mp h'
  have hk' : k < m.symbols.toList.length := hlen ▸ hk
  refine ⟨m.symbols.toList[k], ?_, hget k hk' hk⟩
  rw [← Array.getElem?_toList, List.getElem?_eq_getElem hk']

/-- Rendering leaves the functions as they are. -/
theorem function?_of_render {types : TypeTable} {k : Nat} {f : Function}
    (h : (m.render types).2.function? k = some f) : m.function? k = some f := by
  obtain ⟨s, hs, hfixed⟩ := symbol_render (symbol_of_function? h)
  rw [function?, hs, hfixed.function]

theorem render_isBuilt (h : m.IsBuilt) (types : TypeTable) : (m.render types).2.IsBuilt := by
  have hgrows : m.Grows (m.render types).2 := by
    intro i s hs
    obtain ⟨hlen, hget⟩ := List.forall₂_iff_get.mp (renderSymbols_fixed m m.symbols.toList)
    rw [← Array.getElem?_toList] at hs
    obtain ⟨hi, rfl⟩ := List.getElem?_eq_some_iff.mp hs
    exact ⟨_, List.getElem?_toArray.trans (List.getElem?_eq_getElem (hlen ▸ hi)),
      (hget i hi (hlen ▸ hi)).grows⟩
  exact fun k f hf => (h k f (function?_of_render hf)).mono hgrows

theorem Made.isBuilt (h : m.Made) : m.IsBuilt := by
  induction h with
  | empty name => exact empty_isBuilt name
  | drafted types table d _ ih => exact (Draft.apply_meets (w := ⟨types, _, table⟩) ih d).holds
  | body types table fn blocks _ ih =>
      exact (Draft.buildBody_meets (w := ⟨types, _, table⟩) ih fn blocks).holds
  | block types table fn name _ ih =>
      exact (Build.appendBlock_meets (w := ⟨types, _, table⟩) ih fn name).holds
  | function name result params variadic _ hd ih => exact (declareFunction_isBuilt ih hd).1
  | «global» name type _ hd ih => exact (addVariable_isBuilt ih hd).1
  | initializer i init _ ih => exact (Draft.setInitializer_isBuilt ih i init).1
  | rendered types _ ih => exact render_isBuilt ih types

end Module

end Ssa

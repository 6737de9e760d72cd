/-
# `Ssa.Proofs.Program.Likeness` — building on modules that are alike

Two modules that differ only in which lines are fixed are told apart by binding another initializer to
a variable whose line is fixed in one of them, and in no other way.  So whatever is built on both comes
to the same on both and leaves them alike, as long as no initializer is bound to one of the symbols in
which they may differ.  A draft binds initializers only to variables that it has declared itself, so it
never does that.

**Proved here.**

    a symbol can be declared in both of two alike modules or in neither    (`Module.Alike.declare`)
    changing both in the same way leaves them alike                          (`Module.Alike.modifyFunction`, `Module.Alike.setInitializer`)
    a step of building comes to the same on both                             (`emit_blind`, …, `perform_blind`)
    so do bodies and whole drafts                                            (`buildBody_blind`, `apply_blind`)
-/
import Ssa.Proofs.Pairs
import Ssa.Proofs.Program.Lines
import Ssa.Proofs.Program.Kept

namespace Ssa

open Effect (Blind Paired)

/-! ## Changing alike modules -/

namespace Module

variable {names : List String} {m m' : Module} {k : Nat}

theorem names_getElem? (m : Module) (i : Nat) : m.names[i]? = (m.symbols[i]?).map Symbol.name := by
  rw [names, List.getElem?_map, Array.getElem?_toList]

/-- A symbol that does not go by one of the first names comes after them. -/
theorem length_le_of_symbol (hfirst : names <+: m.names) {s : Symbol} (hs : m.symbols[k]? = some s)
    (hname : s.name ∉ names) : names.length ≤ k := by
  by_contra hk
  have hk : k < names.length := by omega
  have hget := List.prefix_iff_getElem?.mp hfirst k hk
  rw [names_getElem?, hs] at hget
  exact hname (Option.some.inj hget ▸ List.getElem_mem hk)

theorem isSome_index?_of_mem (hfirst : names <+: m.names) {name : String} (hname : name ∈ names) :
    (m.index? name).isSome := by
  rw [Option.isSome_iff_ne_none]
  intro hnone
  obtain ⟨s, hs, rfl⟩ := List.mem_map.mp (hfirst.subset hname)
  obtain ⟨k, hk⟩ := Array.getElem?_of_mem (Array.mem_toList_iff.mp hs)
  exact index?_eq_none_iff.mp hnone k s hk rfl

theorem names_replace {s s' : Symbol} (hs : m.symbols[k]? = some s) (hname : s'.name = s.name) :
    (m.replace k s').names = m.names := by
  obtain ⟨hk, -⟩ := Array.getElem?_eq_some_iff.mp hs
  refine List.ext_getElem? fun i => ?_
  rw [names_getElem?, names_getElem?]
  rw [symbols_replace hk]
  by_cases hik : k = i
  · subst hik
    rw [if_pos rfl, hs, Option.map_some, Option.map_some, hname]
  · rw [if_neg hik]

namespace Alike

theorem names_eq (h : m.Alike names m') : m'.names = m.names := (map_name_of_forall₂ h.forall₂).symm

theorem replace (h : m.Alike names m') {old s s' : Symbol} (hold : m.symbols[k]? = some old)
    (hname : s.name = old.name) (hs : s.Alike s') (hlater : names.length ≤ k → s' = s) :
    (m.replace k s).Alike names (m'.replace k s') := by
  obtain ⟨hk, -⟩ := Array.getElem?_eq_some_iff.mp hold
  have hk' : k < m'.symbols.size := h.size ▸ hk
  have hat := symbols_replace hk s
  have hat' := symbols_replace hk' s'
  constructor
  case name => exact h.name
  case size => simp [Module.replace, h.size]
  case symbols =>
    intro i t t' ht ht'
    rw [hat] at ht
    rw [hat'] at ht'
    split at ht
    · cases ht
      cases (if_pos ‹k = i›).symm.trans ht'
      exact hs
    · rw [if_neg ‹_›] at ht'
      exact h.symbols i t t' ht ht'
  case later =>
    intro i hi
    rw [hat, hat']
    split
    · rw [hlater (by omega)]
    · exact h.later i hi
  case first => exact names_replace hold hname ▸ h.first

/-- Declaring one more symbol in both. -/
theorem push (h : m.Alike names m') (s : Symbol) :
    Alike names { m with symbols := m.symbols.push s } { m' with symbols := m'.symbols.push s } := by
  constructor
  case name => exact h.name
  case size => simp [h.size]
  case symbols =>
    intro i t t' ht ht'
    rw [Array.getElem?_push] at ht ht'
    rw [h.size] at ht'
    split at ht
    · cases ht
      cases (if_pos ‹_›).symm.trans ht'
      exact .refl s
    · rw [if_neg ‹_›] at ht'
      exact h.symbols i t t' ht ht'
  case later =>
    intro i hi
    dsimp only
    rw [Array.getElem?_push, Array.getElem?_push, h.size, h.later i hi]
  case first =>
    have hnames : Module.names { m with symbols := m.symbols.push s } = m.names ++ [s.name] := by
      simp [Module.names]
    exact hnames ▸ h.first.trans (List.prefix_append _ _)

/-- A symbol can be declared in both of two alike modules or in neither. -/
theorem declare (h : m.Alike names m') (s : Symbol) :
    Agree (fun p q => q.1 = p.1 ∧ p.2.Alike names q.2) (m.declare s) (m'.declare s) := by
  unfold Module.declare
  rw [h.index?, h.size]
  split
  · exact .error _
  · exact .ok ⟨rfl, h.push s⟩

theorem declareVariable (h : m.Alike names m') (name : String) (type : Ty) :
    Agree (fun p q => q.1 = p.1 ∧ p.2.Alike names q.2) (m.declareVariable name type)
      (m'.declareVariable name type) := by
  unfold Module.declareVariable
  split
  · exact .error _
  · exact h.declare _

theorem addVariable (h : m.Alike names m') (name : String) (type : Ty) :
    Agree (fun p q => q.1 = p.1 ∧ p.2.Alike names q.2) (m.addVariable name type)
      (m'.addVariable name type) := by
  unfold Module.addVariable
  rw [h.index?, h.name]
  split
  · exact .error _
  · exact h.declareVariable name type

theorem addFunction (h : m.Alike names m') (name : String) (result : Ty) (params : List Ty)
    (variadic : Bool) :
    Agree (fun p q => q.1 = p.1 ∧ p.2.Alike names q.2) (m.addFunction name result params variadic)
      (m'.addFunction name result params variadic) := by
  unfold Module.addFunction
  rw [h.index?, h.name]
  split
  · exact .error _
  · exact h.declare _

/-- Functions are the same in both, and may be changed in all but their names. -/
theorem replaceFunction (h : m.Alike names m') {f f' : Function} (hf : m.function? k = some f)
    (hname : f'.name = f.name) : (m.replace k (.function f')).Alike names (m'.replace k (.function f')) :=
  h.replace (symbol_of_function? hf) hname (.refl _) fun _ => rfl

theorem modifyFunction (h : m.Alike names m') {change : Function → Function}
    (hchange : ∀ f, (change f).name = f.name) :
    (m.modifyFunction k change).Alike names (m'.modifyFunction k change) := by
  unfold Module.modifyFunction
  rw [h.function?]
  split
  · rename_i f hf
    exact h.replaceFunction hf (hchange f)
  · exact h

/-- An initializer may be bound to a variable that is not one of the first. -/
theorem setInitializer (h : m.Alike names m') (hk : names.length ≤ k) (init : Operand) :
    (m.setInitializer k init).Alike names (m'.setInitializer k init) := by
  have hsame : m'.variableAt? k = m.variableAt? k := by
    rw [Module.variableAt?, Module.variableAt?, h.later k hk]
  unfold Module.setInitializer
  rw [hsame]
  split
  · rename_i v hv
    exact h.replace (symbol_of_variableAt? hv) rfl (.refl _) fun _ => rfl
  · exact h

end Alike

end Module

/-- Two workbenches have alike modules on them, and are the same otherwise. -/
structure Workbench.Alike (names : List String) (w w' : Workbench) : Prop where
  types : w'.types = w.types
  module : w.module.Alike names w'.module
  table : w'.table = w.table

/-! ## Building on alike modules -/

namespace Build

variable {α β : Type} {names : List String}

theorem lift_blind (x : Except Failure α) : Blind (Workbench.Alike names) (Build.lift x) := by
  cases x with
  | ok a => exact .pure a
  | error e => exact .throw e

theorem mention_blind (t : Ty) : Blind (Workbench.Alike names) (mention t) := by
  refine .forM (fun step => .get fun w w' h => ?_) _
  rw [h.types]
  cases w.types.make step with
  | error e => exact .throw h e
  | ok types => exact ⟨(), trivial, ⟨rfl, h.module, h.table⟩, .ok rfl⟩

theorem modifyModule_blind {change : Module → Module}
    (h : ∀ m m' : Module, m.Alike names m' → (change m).Alike names (change m')) :
    Blind (Workbench.Alike names) (modifyModule change) :=
  .changed fun _ _ hw => ⟨hw.types, h _ _ hw.module, hw.table⟩

theorem declare_blind {act : Module → Except Failure (Nat × Module)}
    (h : ∀ m m' : Module, m.Alike names m' →
      Agree (fun p q => q.1 = p.1 ∧ p.2.Alike names q.2) (act m) (act m')) :
    Blind (Workbench.Alike names) (declare act) := by
  refine .get fun w w' hw => ?_
  have hagree := h _ _ hw.module
  rcases hact : act w.module with e | ⟨k, m⟩ <;> rcases hact' : act w'.module with e' | ⟨k', m'⟩ <;>
    rw [hact, hact'] at hagree <;> cases hagree
  · exact .throw hw _
  · rename_i hm
    obtain ⟨rfl, hm⟩ := hm
    exact ⟨(), trivial, ⟨hw.types, hm, hw.table⟩, .ok rfl⟩

theorem adopt_blind (k : Nat) : Blind (Workbench.Alike names) (adopt k) := by
  refine .changed fun w w' h => ?_
  rw [h.table]
  split
  · exact h
  · exact ⟨h.types, h.module, rfl⟩

theorem appendBlock_blind (fn : Nat) (name : String) :
    Blind (Workbench.Alike names) (appendBlock fn name) := by
  refine .get fun w w' h => ?_
  rw [h.module.function?]
  split
  · exact .throw h _
  · rename_i f hf
    refine .bind (P := fun _ => Eq) ?_ fun _ _ _ _ _ _ h' _ => .pure h' rfl
    exact ⟨(), trivial, ⟨h.types, h.module.replaceFunction hf rfl, h.table⟩, .ok rfl⟩

theorem insert_blind (fn block : Nat) (i : Instr) : Blind (Workbench.Alike names) (insert fn block i) :=
  modifyModule_blind fun _ _ h => h.modifyFunction fun _ => rfl

theorem modifyOp_blind (fn block id : Nat) (change : Op → Op) :
    Blind (Workbench.Alike names) (modifyOp fn block id change) :=
  modifyModule_blind fun _ _ h => h.modifyFunction fun _ => rfl

theorem setIncoming_blind (fn block id : Nat) (incoming : List (Operand × Nat)) :
    Blind (Workbench.Alike names) (setIncoming fn block id incoming) :=
  modifyOp_blind fn block id _

theorem isTerminated_blind (fn block : Nat) : Blind (Workbench.Alike names) (isTerminated fn block) :=
  .get fun _ _ h => .pure h (by rw [h.module.function?])

theorem emit_blind (fn block : Nat) (name : String) (asked : Ty) (op : Op) :
    Blind (Workbench.Alike names) (emit fn block name asked op) := by
  refine .get fun w w' h => ?_
  rw [h.types, h.module.function?]
  cases op.typeOf w.types asked with
  | error e => exact .stop (.throw h e)
  | ok type =>
      rw [show Build.lift (.ok type) = pure type from rfl, pure_bind]
      split
      · exact .throw h _
      rename_i f hf
      have hadded : Paired (.still (Workbench.Alike names)) ()
          (modifyModule (·.replace fn (.function (f.addLocal name type op.form).2))) w
          (modifyModule (·.replace fn (.function (f.addLocal name type op.form).2))) w'
          fun _ => Eq :=
        ⟨(), trivial, ⟨h.types, h.module.replaceFunction hf rfl, h.table⟩, .ok rfl⟩
      refine .bind hadded fun _ _ _ w₁ w₁' _ h₁ _ => ?_
      refine .bind (isTerminated_blind fn block w₁ w₁' h₁) fun _ ended _ w₂ w₂' _ h₂ heq => ?_
      subst heq
      exact .of_blind h₂ (.guarded (.bind (insert_blind _ _ _) fun _ => .pure _))

theorem emitGrowing_blind {fn block : Nat} {name : String} {op : Op} {parts : List β}
    {grow : β → Build (Op → Op)} (hgrow : ∀ part, Blind (Workbench.Alike names) (grow part)) :
    Blind (Workbench.Alike names) (emitGrowing fn block name op parts grow) := by
  refine .bind (emit_blind _ _ _ _ _) fun o => .bind (.forM (fun part => ?_) _) fun _ => .pure _
  refine .bind (hgrow part) fun change => ?_
  cases o with
  | «local» id t => exact modifyOp_blind _ _ _ _
  | _ => exact .pure _

end Build

/-- Writing an operation with its operands and blocks in another way cannot tell states apart that none
of its parts tells apart. -/
theorem OpOver.traverse_blind {ε σ Value Target Value' Target' : Type} {R : σ → σ → Prop}
    {value : Value → ExceptT ε (StateM σ) Value'} {target : Target → ExceptT ε (StateM σ) Target'}
    (hvalue : ∀ v, Blind R (value v)) (htarget : ∀ t, Blind R (target t)) (op : OpOver Value Target) :
    Blind R (op.traverse value target) := by
  have one (g : Value' → OpOver Value' Target') (a : Value) : Blind R (do return g (← value a)) :=
    .bind (hvalue a) fun _ => .pure _
  have two (g : Value' → Value' → OpOver Value' Target') (a b : Value) :
      Blind R (do return g (← value a) (← value b)) :=
    .bind (hvalue a) fun x => one (g x) b
  have three (g : Value' → Value' → Value' → OpOver Value' Target') (a b c : Value) :
      Blind R (do return g (← value a) (← value b) (← value c)) :=
    .bind (hvalue a) fun x => two (g x) b c
  have entries (es : List (Value × Target)) :
      Blind R (es.mapM fun e => do return (← value e.1, ← target e.2)) :=
    .mapM (fun e => .bind (hvalue e.1) fun _ => .bind (htarget e.2) fun _ => .pure _) es
  cases op with
  | int op a b => exact two (.int op) a b
  | fp op a b => exact two (.fp op) a b
  | fneg a => exact one .fneg a
  | icmp p a b => exact two (.icmp p) a b
  | fcmp p a b => exact two (.fcmp p) a b
  | cast op a => exact one (.cast op) a
  | select c a b => exact three .select c a b
  | phi es => exact .bind (entries es) fun _ => .pure _
  | alloca t n =>
      cases n with
      | none => exact .pure _
      | some n => exact one (fun n => .alloca t (some n)) n
  | load p => exact one .load p
  | store v p => exact two .store v p
  | call f args => exact .bind (hvalue f) fun _ => .bind (.mapM hvalue args) fun _ => .pure _
  | br t => exact .bind (htarget t) fun _ => .pure _
  | condBr c t e =>
      exact .bind (hvalue c) fun _ => .bind (htarget t) fun _ => .bind (htarget e) fun _ => .pure _
  | switch v d cases =>
      exact .bind (hvalue v) fun _ => .bind (htarget d) fun _ => .bind (entries cases) fun _ => .pure _
  | ret v =>
      cases v with
      | none => exact .pure _
      | some v => exact one (fun v => .ret (some v)) v
  | unreachable | fence | comment _ => exact .pure _
  | indirectBr a ts => exact .bind (hvalue a) fun _ => .bind (.mapM htarget ts) fun _ => .pure _
  | invoke f args n u =>
      exact .bind (hvalue f) fun _ => .bind (.mapM hvalue args) fun _ =>
        .bind (htarget n) fun _ => .bind (htarget u) fun _ => .pure _
  | address p is => exact .bind (hvalue p) fun _ => .bind (.mapM hvalue is) fun _ => .pure _
  | extractValue a path => exact one (.extractValue · path) a
  | insertValue a b path => exact two (.insertValue · · path) a b
  | extractElement a i => exact two .extractElement a i
  | insertElement a b i => exact three .insertElement a b i
  | atomicUpdate op p v => exact two (.atomicUpdate op) p v
  | compareExchange p e v => exact three .compareExchange p e v
  | atomicLoad p => exact one .atomicLoad p
  | atomicStore v p => exact two .atomicStore v p

namespace Draft

open Build (lift_blind)

variable {names : List String}

theorem look_blind {α : Type} (entries : List (String × α)) (key : String) :
    Blind (Workbench.Alike names) (look entries key) := by
  unfold look
  split
  · exact .pure _
  · exact .throw _

theorem symbolOperand_blind (name : String) : Blind (Workbench.Alike names) (symbolOperand name) := by
  refine .get fun w w' h => ?_
  dsimp only
  rw [h.module.index?, h.module.operand?]
  split
  · exact .pure h rfl
  · exact .throw h _

/-- A computation with the structures of the context. -/
theorem types_blind {α : Type} (make : TypeTable → Except Failure α) :
    Blind (Workbench.Alike names) (do Build.lift (make (← get).types)) := by
  refine .get fun w w' h => ?_
  rw [h.types]
  exact .of_blind h (lift_blind _)

theorem makeConstant_blind (r : Recipe) : Blind (Workbench.Alike names) (makeConstant r) :=
  .bind (Build.mention_blind _) fun _ => types_blind fun types => r.make types

theorem Value.resolve_blind (p : Progress) (v : Value) :
    Blind (Workbench.Alike names) (v.resolve p) := by
  cases v with
  | key k => exact look_blind _ _
  | symbol name => exact symbolOperand_blind name
  | constant r => exact .bind (makeConstant_blind r) fun _ => .pure _

theorem intrinsicOperand_blind (which : Intrinsic) (t : Ty) :
    Blind (Workbench.Alike names) (intrinsicOperand which t) := by
  have hdeclare (name : String) : Blind (Workbench.Alike names) (do
      if ((← get).module.index? name).isNone then
        discard (Build.declare
          (·.declareFunction name (which.signature t).1 (which.signature t).2 false))
      symbolOperand name) := by
    refine .get fun w w' h => ?_
    rw [h.module.index?]
    split
    · exact .of_blind h (.bind (.discard (Build.declare_blind fun _ _ h => h.declare _)) fun _ =>
        symbolOperand_blind name)
    · exact .of_blind h (symbolOperand_blind name)
  unfold intrinsicOperand
  dsimp only
  split
  · rw [pure_bind]
    exact hdeclare _
  · exact .bind (.throw (α := String) _) fun name => hdeclare name

theorem fillConstant_blind (v : Int) (t : Ty) : Blind (Workbench.Alike names) (fillConstant v t) := by
  refine .get fun w w' h => ?_
  rw [h.types]
  exact .of_blind h (.bind (lift_blind _) fun _ => .pure _)

theorem resolveCase_blind (p : Progress) (t : Ty) (label : CaseLabel) (target : String) :
    Blind (Workbench.Alike names) (resolveCase p t label target) := by
  cases label with
  | constant r => exact .bind (makeConstant_blind r) fun _ => .bind (look_blind _ _) fun _ => .pure _
  | number content =>
      refine .bind (look_blind _ _) fun _ => .get fun w w' h => ?_
      rw [h.types]
      exact .of_blind h (.bind (lift_blind _) fun _ => .pure _)

theorem Action.perform_blind (p : Progress) (block : Nat) (name : String) (a : Action) :
    Blind (Workbench.Alike names) (a.perform p block name) := by
  cases a with
  | op o =>
      exact .bind (.each Build.mention_blind _) fun _ =>
        .bind (OpOver.traverse_blind (fun v => v.resolve_blind p) (fun t => look_blind _ t) o)
          fun resolved => Build.emit_blind _ _ _ _ _
  | switch v d cases =>
      refine .bind (v.resolve_blind p) fun x => .bind (look_blind _ d) fun d => ?_
      exact Build.emitGrowing_blind fun part =>
        .bind (resolveCase_blind p _ part.1 part.2) fun _ => .pure _
  | indirectBr a targets =>
      refine .bind (a.resolve_blind p) fun x => Build.emitGrowing_blind fun part => ?_
      exact .bind (look_blind _ part) fun _ => .pure _
  | cast c a t =>
      refine .bind (a.resolve_blind p) fun x => .bind (Build.mention_blind t) fun _ => ?_
      split
      · exact .pure _
      · exact Build.emit_blind _ _ _ _ _
  | phi t incoming => exact .bind (Build.mention_blind t) fun _ => Build.emit_blind _ _ _ _ _
  | negate a | complement a =>
      exact .bind (a.resolve_blind p) fun _ => .bind (fillConstant_blind _ _) fun _ =>
        Build.emit_blind _ _ _ _ _
  | intrinsic which args =>
      exact .bind (.mapM (fun v => v.resolve_blind p) args) fun os => .bind (lift_blind _) fun t =>
        .bind (intrinsicOperand_blind which t) fun _ => Build.emit_blind _ _ _ _ _
  | unknownPredicate a b =>
      exact .bind (.discard (a.resolve_blind p)) fun _ =>
        .bind (.discard (b.resolve_blind p)) fun _ => .throw _

theorem Step.build_blind (block : Nat) (p : Progress) (s : Step) :
    Blind (Workbench.Alike names) (s.build block p) :=
  .bind (s.action.perform_blind p block s.name) fun _ => .pure _

theorem setPhi_blind (p : Progress) (phi : Nat × Nat × List (Value × String)) :
    Blind (Workbench.Alike names) (setPhi p phi) := by
  obtain ⟨block, id, incoming⟩ := phi
  refine .bind (.mapM (fun e => ?_) incoming) fun es => ?_
  · obtain ⟨v, b⟩ := e
    exact .bind (v.resolve_blind p) fun _ => .bind (look_blind _ b) fun _ => .pure _
  · exact Build.setIncoming_blind _ _ _ es

theorem buildBody_blind (fn : Nat) (blocks : List Block) :
    Blind (Workbench.Alike names) (buildBody fn blocks) := by
  refine .get fun w w' h => ?_
  rw [h.module.function?]
  split
  · exact .throw h _
  refine .of_blind h (.bind (.mapM (fun b => ?_) blocks) fun ids => ?_)
  · exact Build.appendBlock_blind fn b.name
  refine .bind (.foldlM (fun p part => .foldlM (fun p' s => s.build_blind _ p') _ p) _ _) fun p => ?_
  exact .bind (.each (setPhi_blind p) _) fun _ => .pure _

/-- What a draft declares is not one of the first symbols, if it can be declared. -/
theorem Variable.declare_paired (v : Variable) {w w' : Workbench} (h : w.Alike names w') :
    Paired (.still (Workbench.Alike names)) () v.declare w v.declare w' fun _ _ _ => v.name ∉ names := by
  refine .bind (Build.mention_blind v.type w w' h) fun _ _ _ w₁ w₁' _ h₁ _ => ?_
  by_cases hname : v.name ∈ names
  · -- then the name is taken in both
    have htaken {m : Module} (hfirst : names <+: m.names) :
        m.addVariable v.name v.type = .error (.duplicateSymbol v.name m.name) :=
      if_pos (Module.isSome_index?_of_mem hfirst hname)
    have hfails {u : Workbench} (hfirst : names <+: u.module.names) :
        (discard (Build.declare (·.addVariable v.name v.type))).on u =
          (throw (.duplicateSymbol v.name u.module.name) : Build Unit).on u := by
      refine Effect.on_bind_of_error (Effect.on_bind_of_ok (Effect.on_get u) |>.trans ?_)
      beta_reduce
      rw [htaken hfirst]
      rfl
    have hfirst' : names <+: w₁'.module.names := h₁.module.names_eq ▸ h₁.module.first
    exact .of_on_eq (hfails h₁.module.first) (hfails hfirst') (h₁.module.name ▸ .throw h₁ _)
  · have hblind : Blind (Workbench.Alike names) (discard (Build.declare (·.addVariable v.name v.type))) :=
      .discard (Build.declare_blind fun _ _ h => h.addVariable _ _)
    exact (hblind w₁ w₁' h₁).mono fun _ _ _ _ _ => hname

/-- An initializer may be bound to a variable that is not one of the first. -/
theorem Variable.bind_blind {v : Variable} (hname : v.name ∉ names) :
    Blind (Workbench.Alike names) v.bind := by
  unfold Variable.bind
  split
  · exact .pure _
  refine .bind (Value.resolve_blind _ _) fun o => .get fun w w' h => ?_
  rw [h.module.index?]
  split
  · rename_i k hk
    obtain ⟨s, hs, hsname⟩ := Module.symbol_of_index? hk
    have hle := Module.length_le_of_symbol h.module.first hs (hsname ▸ hname)
    exact .of_blind h (Build.modifyModule_blind fun _ _ hm => hm.setInitializer hle o)
  · exact .throw h _

theorem Function.declare_blind (f : Function) : Blind (Workbench.Alike names) f.declare :=
  .bind (Build.mention_blind _) fun _ => .bind (Build.declare_blind fun _ _ h => h.addFunction _ _ _ _)
    fun i => .bind (Build.adopt_blind i) fun _ => .pure _

theorem declareType_blind (t : String × Option (List Ty)) :
    Blind (Workbench.Alike names) (declareType t) := by
  obtain ⟨name, body⟩ := t
  refine .bind (Build.mention_blind _) fun _ => ?_
  cases body with
  | none => exact .pure _
  | some fields =>
      refine .bind (.each Build.mention_blind fields) fun _ => .get fun w w' h => ?_
      rw [h.types]
      cases w.types.define name fields with
      | error e => exact .throw h e
      | ok types => exact ⟨(), trivial, ⟨rfl, h.module, h.table⟩, .ok rfl⟩

/-- Applying a draft comes to the same on alike modules, and leaves them alike, also where it fails. -/
theorem apply_blind (d : Draft) : Blind (Workbench.Alike names) d.apply := by
  refine .bind (.each declareType_blind d.types) fun _ w w' h => ?_
  have hdeclared : Paired (.still (Workbench.Alike names)) ()
      (forIn d.globals PUnit.unit fun v _ => do v.declare; pure (.yield PUnit.unit)) w
      (forIn d.globals PUnit.unit fun v _ => do v.declare; pure (.yield PUnit.unit)) w'
      fun _ _ _ => ∀ v ∈ d.globals, v.name ∉ names :=
    .each (S := Eq) h (List.forall₂_same.mpr fun _ _ => rfl) fun v _ hv _ _ _ _ h₁ =>
      hv ▸ v.declare_paired h₁
  refine .bind hdeclared fun _ _ _ w₁ w₁' _ h₁ hnew => ?_
  refine .bind (Blind.mapM Function.declare_blind d.functions w₁ w₁' h₁) fun _ ids _ w₂ w₂' _ h₂ heq => ?_
  subst heq
  have hbound : Paired (.still (Workbench.Alike names)) ()
      (forIn d.globals PUnit.unit fun v _ => do v.bind; pure (.yield PUnit.unit)) w₂
      (forIn d.globals PUnit.unit fun v _ => do v.bind; pure (.yield PUnit.unit)) w₂'
      fun _ _ _ => ∀ v ∈ d.globals, True :=
    .each (S := fun v v' => v = v' ∧ v ∈ d.globals) h₂
      (List.forall₂_same.mpr fun _ hv => ⟨rfl, hv⟩) fun v _ hv _ w₃ w₃' _ h₃ =>
        hv.1 ▸ (Variable.bind_blind (hnew v hv.2) w₃ w₃' h₃).mono fun _ _ _ _ _ => trivial
  refine .bind hbound fun _ _ _ w₃ w₃' _ h₃ _ => ?_
  refine .of_blind h₃ (.bind (.loop (fun part => ?_) _) fun _ => .pure _)
  obtain ⟨f, i⟩ := part
  dsimp only
  split
  · exact .bind (buildBody_blind i _) fun _ => .pure _
  · exact .pure _

end Draft

end Ssa

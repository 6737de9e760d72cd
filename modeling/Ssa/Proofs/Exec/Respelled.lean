/-
# `Ssa.Proofs.Exec.Respelled` — runs of modules with their integers spelled otherwise

The interpreter wraps an integer to its width whenever it reads one.  So an integer, the signed constant of
its width and value, and the unsigned one are the same word to it, whether they are read as operands, as the
numbers of cases, as entries of phis or as initializers.  Aggregates are not read at all.  Two modules that
differ in such spellings ask for the same at every instruction, and their runs are the same.

**Proved here.**

    constants, cells and operands come to the same            (`constant_respelled`, …, `eval_respelled`)
    so do instructions and phis                               (`perform_respelled`, `phiValue_respelled`)
    three spellings of a word, and no run that tells them apart    (`Interpreted.spellings_interchange`)
-/
import Ssa.Exec.Scalar
import Ssa.Proofs.Exec.Congruence
import Ssa.Proofs.Exec.Outcome
import Ssa.Proofs.Exec.Pointwise
import Ssa.Proofs.Number.Words
import Ssa.Proofs.Program.Respelled

namespace Ssa

/-- The signed reading, as the interpreter takes it of a value at a width that is a value. -/
theorem Scalar.toSigned_int {w : Nat} (hw : w ≠ 0) (v : Int) :
    toSigned (.int v) (.int w) = .ok (.int (Word.toSigned w v)) := by
  have hwidth : width (.int w) = .ok w := by
    show (if (w : Int) < 0 then throw .negativeShift else pure (w : Int).toNat) = Except.ok w
    exact if_neg (Int.not_lt.mpr (Int.natCast_nonneg w))
  unfold toSigned
  rw [hwidth]
  exact if_neg hw

namespace Interpreted

/-! ## Constants -/

/-- An integer stands for the word that it is. -/
theorem constant_of_integer? {c : Constant} {w : Nat} {v : Int} (function : String)
    (h : c.integer? = some (w, v)) : constant function c = .ok (.int (Word.wrap w v)) := by
  unfold Constant.integer? at h
  split at h <;> cases h <;> rfl

theorem constant_respelled {c d : Constant} (h : c.Respelled d) (function : String) :
    constant function d = constant function c := by
  cases h with
  | same => rfl
  | aggregate => rfl
  | @signed c d w v hc hd =>
      have hw : w ≠ 0 := fun hw => by simp [Constant.signed, hw] at hd
      rw [constant_of_integer? function hc, Constant.eq_of_signed hd, constant_of_integer? function rfl,
        Word.wrap_toSigned (Nat.pos_of_ne_zero hw)]
  | @unsigned _ w v hc =>
      rw [constant_of_integer? function hc, Constant.unsigned, constant_of_integer? function rfl,
        Word.wrap_wrap]

/-! ## Instructions -/

section

variable {ev ev' : Operand → Exec Value} {f : Function} (blocks : Array Block)
  (hev : ∀ r : Respelling, ev' r.after = ev r.before)
include hev

/-- What computes goes by what its operands come to, by their types, and by which of them are the same. -/
theorem compute_respelled (t : Ty) (pairs : OpOver Respelling Nat) :
    compute ev' { f with blocks } t (pairs.map Respelling.after) =
      compute ev f t (pairs.map Respelling.before) := by
  have htype (r : Respelling) : r.after.type = r.before.type := r.holds.type
  have hsame (r s : Respelling) : r.after.isSameLocal s.after = r.before.isSameLocal s.before :=
    r.holds.isSameLocal s.holds
  have hint : integerOp { f with blocks } = integerOp f := rfl
  have hcell : cellOf { f with blocks } = cellOf f := rfl
  cases pairs with
  | alloca t n => cases n <;> rfl
  | ret v => cases v <;> rfl
  | _ => simp [OpOver.map, OpOver.traverse, compute, hev, htype, hsame, hint, hcell, OpOver.word]

theorem chooseCase_respelled (v : Value) (d : Nat) (cases' : List (Respelling × Nat)) :
    chooseCase ev' v d (cases'.map fun e => (e.1.after, e.2)) =
      chooseCase ev v d (cases'.map fun e => (e.1.before, e.2)) := by
  induction cases' with
  | nil => rfl
  | cons e es ih => simp only [List.map_cons, chooseCase, hev, ih]

/-- What moves control goes by what its operands come to. -/
theorem control_respelled (pairs : OpOver Respelling Nat)
    {callOf callOf' : Operand → List Operand → Exec Signal}
    (hcall : ∀ (callee : Respelling) (args : List Respelling),
      callOf' callee.after (args.map Respelling.after) = callOf callee.before (args.map Respelling.before))
    (otherwise : Exec Value) :
    control ev' { f with blocks } (pairs.map Respelling.after) callOf' otherwise =
      control ev f (pairs.map Respelling.before) callOf otherwise := by
  have hcases := chooseCase_respelled hev
  cases pairs with
  | alloca t n => cases n <;> rfl
  | ret v =>
      cases v with
      | none => rfl
      | some v => simp [OpOver.map, OpOver.traverse, control, hev]
  | _ => simp [OpOver.map, OpOver.traverse, control, hev, hcases, hcall]

end

section

variable {owner : Nat} {types : TypeTable} {m m' : Module} {f f' : Function}
  (hm : m.Respelled m') (hf : f.Respelled f') (env : Env)

theorem globalCell_respelled {v v' : Variable} (hv : v.Respelled v') (function : String) (i : Nat) :
    globalCell function i v' = globalCell function i v := by
  have hinit : initialValue function v' = initialValue function v := by
    have h := hv.init
    unfold initialValue
    generalize v.init = x, v'.init = x' at h
    cases h with
    | none => rw [hv.type]
    | @some o o' ho =>
        cases o with
        | const c =>
            cases o' with
            | const d => exact constant_respelled ho function
            | _ => cases ho
        | _ => cases ho; rfl
  unfold globalCell
  rw [hinit, hv.type]

include hm hf

theorem eval_respelled {o o' : Operand} (ho : o.Respelled o') :
    eval ⟨owner, types, m'⟩ f' env o' = eval ⟨owner, types, m⟩ f env o := by
  cases o with
  | const c =>
      cases o' with
      | const d =>
          unfold eval
          dsimp only
          rw [hf.outline.name, constant_respelled ho]
      | _ => cases ho
  | «local» id t =>
      cases ho
      unfold eval
      dsimp only
      rw [hf.outline.name, hf.outline.localForm]
  | global k t =>
      cases ho
      refine eval_global_congr rfl hf.outline.name (hm.symbols k) fun s s' hs => ?_
      rcases s with v | g <;> rcases s' with v' | g' <;> try contradiction
      · exact globalCell_respelled hs f.name k
      · have hg : g.Respelled g' := hs
        exact ⟨hg.outline.name, hg.outline.type⟩

theorem call_respelled (callee : Respelling) (args : List Respelling) :
    call ⟨owner, types, m'⟩ (eval ⟨owner, types, m'⟩ f' env) f' callee.after (args.map Respelling.after) =
      call ⟨owner, types, m⟩ (eval ⟨owner, types, m⟩ f env) f callee.before
        (args.map Respelling.before) := by
  have hargs : (args.map Respelling.after).mapM (eval ⟨owner, types, m'⟩ f' env) =
      (args.map Respelling.before).mapM (eval ⟨owner, types, m⟩ f env) := by
    induction args with
    | nil => rfl
    | cons r rs ih =>
        rw [List.map_cons, List.map_cons, List.mapM_cons, List.mapM_cons, ih,
          eval_respelled hm hf env r.holds]
  have hcongr (callee : Operand) :
      call ⟨owner, types, m'⟩ (eval ⟨owner, types, m'⟩ f' env) f' callee (args.map Respelling.after) =
        call ⟨owner, types, m⟩ (eval ⟨owner, types, m⟩ f env) f callee (args.map Respelling.before) :=
    call_congr hf.outline.name hm.function? callee hargs
  obtain ⟨o, o', ho⟩ := callee
  cases o with
  | const c =>
      cases o' with
      | const d => exact hcongr (.const d)
      | _ => cases ho
  | «local» id t => cases ho; exact hcongr (.local id t)
  | global k t => cases ho; exact hcongr (.global k t)

theorem perform_respelled {i i' : Instr} (hi : i.Respelled i') :
    perform ⟨owner, types, m'⟩ f' env i' = perform ⟨owner, types, m⟩ f env i := by
  have hev (r : Respelling) : eval ⟨owner, types, m'⟩ f' env r.after = _ :=
    eval_respelled hm hf env r.holds
  have hcall (callee : Respelling) (args : List Respelling) :
      call ⟨owner, types, m'⟩ (eval ⟨owner, types, m'⟩ f' env) f' callee.after
        (args.map Respelling.after) = _ := call_respelled hm hf env callee args
  obtain ⟨pairs, hop, hop'⟩ := hi.op
  obtain ⟨blocks, rfl⟩ := hf.rest
  unfold perform
  dsimp only
  rw [hop, hop', hi.type, compute_respelled blocks hev i.type pairs]
  exact control_respelled blocks hev pairs hcall _

theorem phiValue_respelled (source : Option Nat) {i i' : Instr} (hi : i.Respelled i') :
    Machine.phiValue rules ⟨owner, types, m'⟩ f' env source i' =
      Machine.phiValue rules ⟨owner, types, m⟩ f env source i := by
  have hentry := Machine.entryFor_rel hi.incomingOf source
  unfold Machine.phiValue
  generalize Machine.entryFor (Machine.incomingOf i) source = x,
    Machine.entryFor (Machine.incomingOf i') source = y at hentry
  cases hentry with
  | none =>
      dsimp only
      rw [hi.id, hf.outline.localName, hf.outline.name, hf.outline.sourceName]
  | @some o o' ho =>
      have heval : rules.eval ⟨owner, types, m'⟩ f' env o' = rules.eval ⟨owner, types, m⟩ f env o :=
        eval_respelled hm hf env ho
      dsimp only
      rw [hi.id, heval]

end

/-- By the rules of the interpreter, modules with integers spelled otherwise come to the same. -/
theorem pointwise_respelled {m m' : Module} (hm : m.Respelled m') (owner : Nat) (types : TypeTable) :
    Program.Pointwise rules Instr.Respelled ⟨owner, types, m⟩ ⟨owner, types, m'⟩ where
  functions := hm.function?
  id _ _ hi := hi.id
  isPhi _ _ hi := hi.isPhi
  perform _ _ env _ _ hf hi := perform_respelled hm hf env hi
  phiValue _ _ env source _ _ hf hi := phiValue_respelled hm hf env source hi

/-! ## Spellings -/

/-- The signed constant of a width and a value is the one number in the signed range that is congruent, the
unsigned one that in the unsigned range, and the interpreter takes both, and the value as it is, for one
word.  So a module with integers spelled otherwise has the same functions, and calls of them come to the
same, with the same memory. -/
theorem spellings_interchange :
    (∀ (w : Nat) (v : Int), 1 ≤ w → ∃ n u : Int,
      Constant.signed w v = .ok (.int (.int w) n) ∧ (∀ k, Word.IsSigned w v k ↔ k = n) ∧
        Scalar.toSigned (.int v) (.int w) = .ok (.int n) ∧
      Constant.unsigned w v = .int (.int w) u ∧ (∀ k, Word.IsUnsigned w v k ↔ k = u) ∧
      ∀ p f env mem, ∀ k ∈ [n, u, v],
        (eval p f env (.const (.int (.int w) k))).on mem = (.ok (.int (v % 2 ^ w)), mem)) ∧
    ∀ (m m' : Module), m.Respelled m' → ∀ (owner : Nat) (types : TypeTable) (k : Nat) (f : Function),
      m.function? k = some f → ∃ f', m'.function? k = some f' ∧ f'.name = f.name ∧
        ∀ steps args mem, (Machine.call rules ⟨owner, types, m'⟩ steps f' args).on mem =
          (Machine.call rules ⟨owner, types, m⟩ steps f args).on mem := by
  refine ⟨fun w v hw => ?_, fun m m' hm owner types k f hf => ?_⟩
  · have hw0 : w ≠ 0 := Nat.ne_of_gt hw
    have hword (p : Program) (f : Function) (env : Env) (mem : Memory) (k : Int)
        (hk : Word.wrap w k = v % 2 ^ w) :
        (eval p f env (.const (.int (.int w) k))).on mem = (.ok (.int (v % 2 ^ w)), mem) := by
      rw [← hk]
      exact Exec.on_lift (constant f.name (.int (.int w) k)) mem
    refine ⟨Word.toSigned w v, Word.wrap w v, if_neg hw0, fun _ => Word.isSigned_iff hw, ?_, rfl,
      fun _ => Word.isUnsigned_iff, fun p f env mem k hk => hword p f env mem k ?_⟩
    · exact Scalar.toSigned_int hw0 v
    · simp only [List.mem_cons, List.not_mem_nil, or_false] at hk
      obtain rfl | rfl | rfl := hk
      · rw [Word.wrap_toSigned hw, Word.wrap_eq_emod]
      · rw [Word.wrap_wrap, Word.wrap_eq_emod]
      · exact Word.wrap_eq_emod w _
  · have hk := hm.function? k
    rw [hf] at hk
    generalize m'.function? k = y at hk
    cases hk with
    | some hff' =>
        exact ⟨_, rfl, hff'.outline.name, fun steps args mem =>
          (pointwise_respelled hm owner types).call steps hff' args mem⟩

/-! ## Integers in all places -/

/-- A function that reads an initializer, the number of a case, an entry of a phi, and an operand. -/
def spelled (init number entry operand : Constant) : Module :=
  ⟨"m", #[
    .variable ⟨"x", .int 8, some (.const init), none⟩,
    .function { Function.declare "f" (.int 8) [.int 8] false with
      blocks := #[
        ⟨"e", [⟨1, .void, .switch (.local 0 (.int 8)) 1 [(.const number, 2)]⟩]⟩,
        ⟨"other", [⟨2, .void, .ret (some (.local 0 (.int 8)))⟩]⟩,
        ⟨"chosen", [
          ⟨3, .int 8, .phi [(.const entry, 0)]⟩,
          ⟨4, .int 8, .load (.global 0 (Ty.ref (.int 8)))⟩,
          ⟨5, .int 8, .int .add (.local 3 (.int 8)) (.local 4 (.int 8))⟩,
          ⟨6, .int 8, .int .mul (.local 5 (.int 8)) (.const operand)⟩,
          ⟨7, .void, .ret (some (.local 6 (.int 8)))⟩]⟩] }]⟩

/-- One with integers as they are given, and one with each in one of the two spellings. -/
def plain : Module := spelled (.int (.int 8) 300) (.int (.int 8) 255) (.int (.int 8) (-2)) (.int (.int 8) 131)

def respelled : Module :=
  spelled (.unsigned 8 300) (.int (.int 8) (-1)) (.unsigned 8 (-2)) (.int (.int 8) (-125))

theorem spelled_respelled {init init' number number' entry entry' operand operand' : Constant}
    (hinit : init.Respelled init') (hnumber : number.Respelled number') (hentry : entry.Respelled entry')
    (hoperand : operand.Respelled operand') :
    (spelled init number entry operand).Respelled (spelled init' number' entry' operand') := by
  have hswitch : OpOver.Respelled (.switch (.local 0 (.int 8)) 1 [(.const number, 2)])
      (.switch (.local 0 (.int 8)) 1 [(.const number', 2)]) :=
    ⟨.switch ⟨_, _, .refl (.local 0 (.int 8))⟩ 1 [(⟨.const number, .const number', hnumber⟩, 2)], rfl, rfl⟩
  have hphi : OpOver.Respelled (.phi [(.const entry, 0)]) (.phi [(.const entry', 0)]) :=
    ⟨.phi [(⟨.const entry, .const entry', hentry⟩, 0)], rfl, rfl⟩
  have hmul : OpOver.Respelled (.int .mul (.local 5 (.int 8)) (.const operand))
      (.int .mul (.local 5 (.int 8)) (.const operand')) :=
    ⟨.int .mul ⟨_, _, .refl (.local 5 (.int 8))⟩ ⟨.const operand, .const operand', hoperand⟩, rfl, rfl⟩
  refine ⟨fun k => ?_⟩
  match k with
  | 0 => exact .some (show Variable.Respelled _ _ from ⟨rfl, rfl, .some hinit⟩)
  | 1 =>
      refine .some (show Function.Respelled _ _ from ⟨⟨_, rfl⟩, fun b => ?_⟩)
      match b with
      | 0 => exact .some ⟨rfl, .cons ⟨rfl, rfl, hswitch⟩ .nil⟩
      | 1 => exact .some ⟨rfl, .cons (.refl _) .nil⟩
      | 2 =>
          exact .some ⟨rfl, .cons ⟨rfl, rfl, hphi⟩ (.cons (.refl _) (.cons (.refl _)
            (.cons ⟨rfl, rfl, hmul⟩ (.cons (.refl _) .nil))))⟩
      | _ + 3 => exact .none
  | _ + 2 => exact .none

/-- An initializer and an entry are spelled by the unsigned reading, a number and an operand by the signed
one. -/
theorem spelled_interchange :
    (∃ n u : Int, Constant.signed 8 255 = .ok (.int (.int 8) n) ∧ Constant.unsigned 8 255 = .int (.int 8) u ∧
      ∀ p f env mem, ∀ k ∈ [n, u, 255],
        (eval p f env (.const (.int (.int 8) k))).on mem = (.ok (.int 255), mem)) ∧
    ∃ f f', plain.function? 1 = some f ∧ respelled.function? 1 = some f' ∧
      (Machine.call rules ⟨0, [], respelled⟩ 6 f' [.int 255]).on .empty =
        (Machine.call rules ⟨0, [], plain⟩ 6 f [.int 255]).on .empty ∧
      ((Machine.call rules ⟨0, [], plain⟩ 6 f [.int 255]).on .empty).1 = .ok (.int 126) := by
  obtain ⟨hwords, hruns⟩ := spellings_interchange
  refine ⟨?_, ?_⟩
  · obtain ⟨n, u, hn, -, -, hu, -, heval⟩ := hwords 8 255 (by decide)
    exact ⟨n, u, hn, hu, heval⟩
  · have hrespelled : plain.Respelled respelled :=
      spelled_respelled (.unsigned rfl) (.signed rfl rfl) (.unsigned rfl) (.signed rfl rfl)
    obtain ⟨f', hf', -, hcall⟩ := hruns plain respelled hrespelled 0 [] 1 _ rfl
    exact ⟨_, f', rfl, hf', hcall 6 [.int 255] .empty, rfl⟩

end Interpreted

end Ssa

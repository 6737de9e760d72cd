/-
# `Ssa.Proofs.Session.Forwarded` — integers survive the boundary of an engine

An integer is brought to a width where a value is made of it, where a function is entered on it, where a
run gives it, and where it is read.  Bringing it there again changes nothing, and the number that is read
with a sign is the one in the signed range that is congruent to it.  So a chain of functions that hand an
integer on gives what it was handed, brought to the width once, and gives that again if it is handed in
again.

**Proved here.**

    making a value of an integer, and reading it                      (`ofInt_word`, `toInt_word`)
    a run on the first function of a chain gives the integer            (`run_forwarded`)
    after a run the same is admitted                                    (`admission_again`)
    readings, chains, and handing in again                                (`integers_survive`)
-/
import Ssa.Proofs.Exec.Forwarded
import Ssa.Proofs.Number.Words
import Ssa.Proofs.Session.Request
import Ssa.Proofs.Session.Runs

namespace Ssa

/-! ## Readings -/

namespace GenericValue

variable {w : Nat} {x : Value} {v : Int}

/-- A word is made of an integer, unless it has to be within the signed range and is not. -/
theorem ofInt_word (hw : 0 < w) (hx : x.int? = some v) (signed : Bool) :
    ofInt (.int w) x signed =
      if signed && !Word.fitsSigned w v then .error (.doesNotFit v (.int w))
      else .ok ⟨.int w, .int (Word.wrap w v)⟩ := by
  have hw : w ≠ 0 := by omega
  rw [ofInt, toInt_of_int? hx]
  cases signed
  · rfl
  · show (checkSigned (.int w) v >>= fun _ => _) = _
    rw [checkSigned, if_neg hw]
    cases Word.fitsSigned w v <;> rfl

theorem toInt_word (hw : 0 < w) (v : Int) (signed : Bool) :
    toInt ⟨.int w, .int (Word.wrap w v)⟩ signed =
      .ok (if signed then Word.toSigned w v else Word.wrap w v) := by
  show readAs (.int w) signed (Word.wrap w v) = _
  unfold readAs
  cases signed
  · exact congrArg Except.ok (Word.wrap_wrap w v)
  · have hw : w ≠ 0 := by omega
    simp [Word.toSigned, hw]

end GenericValue

/-! ## Runs of chains -/

/-- The arguments other than the one at a position can be brought to the types of the parameters. -/
def Function.AcceptsBeside (f : Function) (k : Nat) (args : List GenericValue) : Prop :=
  ∀ (i : Nat) (t : Ty) (g : GenericValue), i ≠ k → f.params[i]? = some t → args[i]? = some g →
    ∃ v, g.payload.normalize t = .ok v

namespace Session

open Interpreted (rules)

variable {s : Session} {engine : Nat} {callee : Callee} {args : List GenericValue} {e : EngineRecord}
  {r : ModuleRecord} {f : Function} {w n k : Nat} {g : GenericValue} {i : Int}

/-- Arguments are accepted, if there are enough, the one at a position is an integer where the function
takes a word, and the others are accepted. -/
theorem accepts_of_beside (hlength : f.params.length ≤ args.length) (hk : f.params[k]? = some (.int w))
    (hg : args[k]? = some g) (hi : g.payload.int? = some i) (hbeside : f.AcceptsBeside k args) :
    f.Accepts (args.map GenericValue.payload) := by
  intro j t ht
  have hlt : j < args.length := lt_of_lt_of_le (List.getElem?_eq_some_iff.mp ht).1 hlength
  by_cases hjk : j = k
  · subst hjk
    cases hk.symm.trans ht
    exact ⟨g.payload, _, by rw [List.getElem?_map, hg]; rfl, Value.normalize_int hi⟩
  · obtain ⟨v, hv⟩ := hbeside j t args[j] hjk ht (List.getElem?_eq_getElem hlt)
    exact ⟨args[j].payload, v, by rw [List.getElem?_map, List.getElem?_eq_getElem hlt]; rfl, hv⟩

/-- What is admitted has an argument for each parameter. -/
theorem length_of_admission (ha : s.admission engine callee args.length = .ok (e, r, f)) :
    f.params.length ≤ args.length := by
  obtain ⟨-, -, hcount⟩ := function_of_admission ha
  unfold checkCount at hcount
  split at hcount
  · cases hcount
  · rename_i hnot
    simp only [Bool.or_eq_true, decide_eq_true_eq, not_or] at hnot
    omega

/-- A handle by which something was admitted has been given out. -/
theorem isGiven_of_admission {count : Nat} (ha : s.admission engine callee count = .ok (e, r, f)) :
    callee.IsGiven s := by
  obtain ⟨-, ⟨symbol, hsymbol, -⟩, -⟩ := function_of_admission ha
  cases callee with
  | named name => trivial
  | handle h =>
      cases h with
      | bare owner symbol => trivial
      | member owner index =>
          intro r' hr'
          obtain ⟨symbol, hplaced, -⟩ := ok_of_bind hsymbol
          obtain ⟨_, -, hplaced⟩ := ok_of_bind hplaced
          rw [hr'] at hplaced
          dsimp only [recorded, bind, Except.bind] at hplaced
          split at hplaced
          · rename_i hindex
            exact (List.getElem?_eq_some_iff.mp hindex).1
          · cases hplaced

/-- What a chain comes to crosses the boundary as it is. -/
theorem resultOf_word (w : Nat) (i : Int) :
    resultOf (.int w) (.int (Word.wrap w i)) = .ok (some ⟨.int w, .int (Word.wrap w i)⟩) := by
  have hnormal : (Value.int (Word.wrap w i)).normalize (.int w) = .ok (.int (Word.wrap w i)) := by
    rw [Value.normalize_int rfl, Word.wrap_wrap]
  unfold resultOf
  dsimp only
  rw [hnormal]
  rfl

/-- Running the first function of a chain gives the integer that it is run on, wrapped, as a word. -/
theorem call_forwarded {p : Program} (h : Forwards p.module w n f k)
    (hlength : f.params.length ≤ args.length) (hg : args[k]? = some g) (hi : g.payload.int? = some i)
    (hbeside : f.AcceptsBeside k args) (mem : Memory) {steps : Nat} (hsteps : 2 * n + 1 ≤ steps) :
    ((Machine.call rules p steps f (args.map GenericValue.payload)).on mem).1 >>= resultOf f.result =
      .ok (some ⟨.int w, .int (Word.wrap w i)⟩) := by
  have haccepts := accepts_of_beside hlength h.params hg hi hbeside
  have hpayload : (args.map GenericValue.payload)[k]? = some g.payload := by rw [List.getElem?_map, hg]; rfl
  rw [h.call haccepts hpayload hi mem hsteps, h.result]
  exact resultOf_word w i

/-- So does an engine that interprets the module. -/
theorem run_forwarded (hs : s.IsSound) (ha : s.admission engine callee args.length = .ok (e, r, f))
    (hinterprets : e.backend = .interpreter) (h : Forwards r.module w n f k) (hg : args[k]? = some g)
    (hi : g.payload.int? = some i) (hbeside : f.AcceptsBeside k args) (hsteps : 2 * n + 1 ≤ stepBound) :
    ((run engine callee args).on s).1 = .ok (some ⟨.int w, .int (Word.wrap w i)⟩) := by
  rw [run_of_admission hs ha, hinterprets]
  exact call_forwarded (p := ⟨e.module, [], r.module⟩) h (length_of_admission ha) hg hi hbeside _ hsteps

/-- After a run the same is admitted. -/
theorem admission_again (hs : s.IsSound) {count : Nat} (ha : s.admission engine callee count = .ok (e, r, f))
    (args : List GenericValue) : ∃ e' r', ((run engine callee args).on s).2.admission engine callee count =
      .ok (e', r', f) ∧ e'.backend = e.backend ∧ r'.module = r.module := by
  have hlater := run_later hs (.refl s) engine callee args
  have hagree := hlater.admission (isGiven_of_admission ha) engine count
  rw [ha] at hagree
  generalize ((run engine callee args).on s).2.admission engine callee count = y at hagree
  cases hagree with
  | @ok _ a hsame =>
      obtain ⟨e', r', f'⟩ := a
      obtain ⟨⟨globals, hengine⟩, hmodule, hfunction⟩ := hsame
      cases hfunction
      cases hengine
      exact ⟨_, r', rfl, rfl, hmodule⟩

/-- **Integers survive the boundary.**  A value that is made of an integer as a word reads as the integer,
brought to the width, and with a sign as the one number in the signed range that is congruent to it; with a
sign it is made just of the integers in that range, and reads as they are.  And in every session that was
reached, an engine that interprets a module gives, for the first function of a chain and an integer at the
position that is handed on, of whatever type it is given as, a word: the integer, brought to the width.  If
that is handed in again, in the session that is left, it is given again. -/
theorem integers_survive {s₀ : Session} (h₀ : s₀.IsInitial) (history : List Request) {w : Nat} (hw : 0 < w) :
    (∀ (x : Value) (v : Int), x.int? = some v →
      (∃ g, GenericValue.ofInt (.int w) x false = .ok g ∧ g.toInt false = .ok (v % 2 ^ w) ∧
        ∃ n, g.toInt true = .ok n ∧ Word.IsSigned w v n ∧ ∀ n', Word.IsSigned w v n' → n' = n) ∧
      (¬(-2 ^ (w - 1) ≤ v ∧ v < 2 ^ (w - 1)) →
        GenericValue.ofInt (.int w) x true = .error (.doesNotFit v (.int w))) ∧
      (-2 ^ (w - 1) ≤ v ∧ v < 2 ^ (w - 1) →
        ∃ g, GenericValue.ofInt (.int w) x true = .ok g ∧ g.toInt true = .ok v)) ∧
    ∀ (engine : Nat) (callee : Callee) (args : List GenericValue) (e : EngineRecord) (r : ModuleRecord)
      (f : Function) (n k : Nat) (g : GenericValue) (i : Int),
      (s₀.after history).admission engine callee args.length = .ok (e, r, f) → e.backend = .interpreter →
      Forwards r.module w n f k → f.AcceptsBeside k args → args[k]? = some g → g.payload.int? = some i →
      let back : GenericValue := ⟨.int w, .int (i % 2 ^ w)⟩
      (∀ mem steps, 2 * n + 1 ≤ steps →
        ((Machine.call rules ⟨e.module, [], r.module⟩ steps f (args.map GenericValue.payload)).on mem).1 >>=
          resultOf f.result = .ok (some back)) ∧
      (2 * n + 1 ≤ stepBound →
        ((run engine callee args).on (s₀.after history)).1 = .ok (some back) ∧
        ((run engine callee (args.set k back)).on ((run engine callee args).on (s₀.after history)).2).1 =
          .ok (some back)) := by
  have hs := after_isSound h₀.isSound history
  have hwrap (v : Int) : Word.wrap w v = v % 2 ^ w := by simp [Word.wrap, Word.count]
  refine ⟨fun x v hx => ⟨?_, fun hout => ?_, fun hin => ?_⟩, ?_⟩
  · have hsigned := Word.toSigned_isSigned hw v
    refine ⟨_, GenericValue.ofInt_word hw hx false, ?_, Word.toSigned w v, ?_, hsigned, ?_⟩
    · exact (GenericValue.toInt_word hw v false).trans (congrArg Except.ok (hwrap v))
    · exact GenericValue.toInt_word hw v true
    · exact fun n' => hsigned.unique hw
  · have hfits : Word.fitsSigned w v = false := by
      rw [← Bool.not_eq_true, Word.fitsSigned_iff]
      exact hout
    rw [GenericValue.ofInt_word hw hx, hfits]
    rfl
  · have hfits : Word.fitsSigned w v = true := Word.fitsSigned_iff.mpr hin
    refine ⟨⟨.int w, .int (Word.wrap w v)⟩, ?_, ?_⟩
    · rw [GenericValue.ofInt_word hw hx, hfits]
      rfl
    · have hsigned := (Word.toSigned_isSigned hw v).unique hw ⟨.refl v, hin⟩
      rw [GenericValue.toInt_word hw v, if_pos rfl, ← hsigned]
  · intro engine callee args e r f n k g i ha hinterprets h hbeside hg hi back
    have hback : back = ⟨.int w, .int (Word.wrap w i)⟩ := by rw [hwrap]
    rw [hback]
    refine ⟨fun mem steps => ?_, fun hsteps => ⟨?_, ?_⟩⟩
    · exact call_forwarded (p := ⟨e.module, [], r.module⟩) h (length_of_admission ha) hg hi hbeside mem
    · exact run_forwarded hs ha hinterprets h hg hi hbeside hsteps
    · have hs' : ((run engine callee args).on (s₀.after history)).2.IsSound :=
        isSound_of_goes (run_goes hs callee args) rfl
      obtain ⟨e', r', ha', hbackend, hmodule⟩ := admission_again hs ha args
      let given : GenericValue := ⟨.int w, .int (Word.wrap w i)⟩
      have hk : k < args.length := (List.getElem?_eq_some_iff.mp hg).1
      have hset : (args.set k given)[k]? = some given := List.getElem?_set_self hk
      have hbeside' : f.AcceptsBeside k (args.set k given) := fun j t g' hj ht hg' =>
        hbeside j t g' hj ht ((List.getElem?_set_ne hj.symm).symm.trans hg')
      have hagain := run_forwarded hs' (by rwa [List.length_set]) (hbackend.trans hinterprets) (hmodule ▸ h)
        hset rfl hbeside' hsteps
      rw [Word.wrap_wrap] at hagain
      exact hagain

/-! ## A chain of two -/

/-- A function that returns its first parameter, and one that hands its second parameter on to it. -/
def handing : Draft where
  types := []
  globals := []
  functions := [
    ⟨"last", .int 8, [.int 8, .fp .double], false, some [⟨"e", "e", [
      ⟨none, "", .op (.ret (some (.key "0")))⟩]⟩]⟩,
    ⟨"hand", .int 8, [.fp .double, .int 8], false, some [⟨"e", "e", [
      ⟨some "v", "v", .op (.call (.symbol "last") [.key "1", .key "0"])⟩,
      ⟨none, "", .op (.ret (some (.key "v")))⟩]⟩]⟩]

/-- An engine of the module, with the number 3. -/
def handed : List Request := [.createModule "m" none, .build 2 handing, .createInterpreter 2]

/-- Whether a function returns its first parameter. -/
def givesBack (f : Function) : Bool :=
  match f.params, f.instrs 0 with
  | [.int 8, .fp .double], [⟨_, _, .ret (some (.local 0 _))⟩] => f.result == .int 8
  | _, _ => false

/-- Whether a function hands its second parameter on to the first function, and returns what that returns. -/
def handsOn (f : Function) : Bool :=
  match f.params, f.instrs 0 with
  | [.fp .double, .int 8], [⟨v, _, .call (.global 0 _) [.local 1 _, .local 0 _]⟩,
      ⟨_, _, .ret (some (.local v' _))⟩] => f.result == .int 8 && v == v'
  | _, _ => false

/-- Whether an engine that interprets a module admits the second function, and the two are a chain. -/
def isHanded (s : Session) : Bool :=
  match s.admission 3 (.named "hand") 2 with
  | .ok (⟨_, _, .interpreter, _⟩, r, f) => handsOn f && (r.module.function? 0).any givesBack
  | _ => false

theorem forwards_of_givesBack {m : Module} {g : Function} (h : givesBack g = true) :
    g.params = [.int 8, .fp .double] ∧ Forwards m 8 0 g 0 := by
  unfold givesBack at h
  split at h
  · rename_i hparams hinstrs
    exact ⟨hparams, .last (by rw [hparams]; rfl) (by simpa using h) hinstrs⟩
  · cases h

theorem forwards_of_handsOn {m : Module} {f g : Function} (h : handsOn f = true) (hm : m.function? 0 = some g)
    (hg : givesBack g = true) : f.params = [.fp .double, .int 8] ∧ Forwards m 8 1 f 1 := by
  obtain ⟨hg, hlast⟩ := forwards_of_givesBack hg
  unfold handsOn at h
  split at h
  · rename_i v _ u t t' _ _ v' _ hparams hinstrs
    simp only [Bool.and_eq_true, beq_iff_eq] at h
    obtain ⟨hresult, rfl⟩ := h
    have hpasses : List.Forall₂ (Operand.Passes m f) (g.params ++ []) [.local 1 t, .local 0 t'] := by
      rw [hg]
      exact .cons (.parameter (by rw [hparams]; rfl)) (.cons (.parameter (by rw [hparams]; rfl)) .nil)
    exact ⟨hparams, .next (by rw [hparams]; rfl) hresult hinstrs hm (j := 0) rfl hpasses hlast⟩
  · cases h

/-- Minus one, given as a word of 32 digits, is 255 to the chain, and 255 is 255. -/
theorem integers_survive_minus_one :
    let s := (fresh .fresh).after handed
    let args : List GenericValue := [⟨.fp .double, .real (.zero false)⟩, ⟨.int 32, .int (-1)⟩]
    let back : GenericValue := ⟨.int 8, .int 255⟩
    (∃ g, GenericValue.ofInt (.int 8) (.int (-1)) false = .ok g ∧ g.toInt false = .ok 255) ∧
      GenericValue.ofInt (.int 8) (.int 255) true = .error (.doesNotFit 255 (.int 8)) ∧
      ((run 3 (.named "hand") args).on s).1 = .ok (some back) ∧
      ((run 3 (.named "hand") (args.set 1 back)).on ((run 3 (.named "hand") args).on s).2).1 =
        .ok (some back) := by
  have hhanded : isHanded ((fresh .fresh).after handed) = true := by decide +kernel
  obtain ⟨hreadings, hruns⟩ := integers_survive (fresh_isInitial .fresh) handed (w := 8) (by decide)
  refine ⟨?_, (hreadings (.int 255) 255 rfl).2.1 (by decide), ?_⟩
  · obtain ⟨g, hg, hread, -⟩ := (hreadings (.int (-1)) (-1) rfl).1
    exact ⟨g, hg, hread⟩
  · unfold isHanded at hhanded
    split at hhanded
    · rename_i id m globals r f ha
      obtain ⟨hf, hlast⟩ := Bool.and_eq_true_iff.mp hhanded
      obtain ⟨g, hfunction, hg⟩ := (Option.any_eq_true _ _).mp hlast
      obtain ⟨hparams, hchain⟩ := forwards_of_handsOn hf hfunction hg
      have hbeside : f.AcceptsBeside 1 [⟨.fp .double, .real (.zero false)⟩, ⟨.int 32, .int (-1)⟩] := by
        intro j t x hj ht hx
        rw [hparams] at ht
        obtain rfl | rfl : j = 0 ∨ j = 1 := by
          have hlt : j < 2 := (List.getElem?_eq_some_iff.mp ht).1
          omega
        · cases ht
          cases hx
          exact ⟨_, rfl⟩
        · exact absurd rfl hj
      exact (hruns 3 (.named "hand") [⟨.fp .double, .real (.zero false)⟩, ⟨.int 32, .int (-1)⟩] _ r f 1 1
        ⟨.int 32, .int (-1)⟩ (-1) ha rfl hchain hbeside rfl rfl).2 (by decide)
    · cases hhanded

end Session

end Ssa

/-
# `Ssa.Proofs.Exec.Cases` — which case a switch takes

A value of an integer type is held as its unsigned reading, and the number of a case is brought to that
reading before the two are compared.  So a case is taken by the values that are congruent to its number.
In which order the cases stand, and by which numbers they are given, is of no concern as long as no two
of them are for one word.

**Proved here.**

    a word takes the first case that is congruent to it                     (`Switch.chosen_of_int?`)
    at most one number is equal to a value                                  (`Value.eq_of_equals_int`)
    cases that are for the same words are taken alike, by any value         (`Switch.chosen_rearranged`)
    a switch goes on at the label of the case that is taken                 (`Interpreted.step_switch`)
-/
import Ssa.Exec.Interpreted
import Ssa.Proofs.Exec.Steps
import Ssa.Proofs.Number.Words
import Ssa.Proofs.Program.Recased

namespace Ssa

/-! ## Numbers of cases -/

namespace Value

variable {x : Value} {a b : Int}

theorem number?_of_int? (h : x.int? = some a) : x.number? = some (.int a) := by
  cases x with
  | int n => cases h; rfl
  | truth c => cases h; rfl
  | _ => cases h

theorem int_equals (b : Int) (x : Value) :
    (int b).equals x = (x.number?.map fun n => (Number.int b).equals n).getD false := by
  cases x <;> rfl

theorem equals_int (h : x.int? = some a) : (int b).equals x = decide (b = a) := by
  have hrat : ((b : Rat) = (a : Rat)) ↔ b = a := Rat.intCast_inj
  rw [int_equals, number?_of_int? h]
  show (true && true && true && decide ((b : Rat) = (a : Rat))) = _
  rw [decide_eq_decide.mpr hrat]
  rfl

/-- At most one number is equal to a value, whatever the value is. -/
theorem eq_of_equals_int (ha : (int a).equals x = true) (hb : (int b).equals x = true) : a = b := by
  rw [int_equals] at ha hb
  cases hx : x.number? with
  | none =>
      rw [hx] at ha
      cases ha
  | some n =>
      have hrat (c : Int) (h : (Number.int c).equals n = true) : (c : Rat) = n.toRat :=
        of_decide_eq_true (Bool.and_eq_true_iff.mp h).2
      rw [hx] at ha hb
      exact Rat.intCast_inj.mp ((hrat a ha).trans (hrat b hb).symm)

end Value

namespace Switch

variable {x : Value} {a : Int} {d w : Nat} {es es' : List (Int × Nat)}

/-- Whether a value takes a case. -/
def takes (x : Value) (w : Nat) (e : Int × Nat) : Bool := (Value.int (Word.wrap w e.1)).equals x

/-- The label at which a switch goes on: that of the first case which the value takes, or the default. -/
def chosen (x : Value) (d w : Nat) (es : List (Int × Nat)) : Nat :=
  ((es.find? (takes x w)).map Prod.snd).getD d

theorem chosen_cons (x : Value) (d w : Nat) (e : Int × Nat) (es : List (Int × Nat)) :
    chosen x d w (e :: es) = if takes x w e then e.2 else chosen x d w es := by
  rw [chosen, chosen, List.find?_cons]
  cases takes x w e <;> rfl

theorem chosen_mem (x : Value) (d w : Nat) (es : List (Int × Nat)) :
    chosen x d w es ∈ d :: es.map Prod.snd := by
  rw [chosen]
  cases he : es.find? (takes x w) with
  | none => exact List.mem_cons_self
  | some e => exact List.mem_cons_of_mem d (List.mem_map_of_mem (List.mem_of_find?_eq_some he))

/-- The label of the first case with a number that is congruent to an integer, or the default. -/
def firstCongruent (a : Int) (d w : Nat) (es : List (Int × Nat)) : Nat :=
  ((es.find? fun e => decide (e.1 ≡ a [ZMOD 2 ^ w])).map Prod.snd).getD d

/-- A word takes the first case with a number that is congruent to it. -/
theorem chosen_of_int? (hx : x.int? = some a) (hnonneg : 0 ≤ a) (hlt : a < 2 ^ w) :
    chosen x d w es = firstCongruent a d w es := by
  have htakes : takes x w = fun e => decide (e.1 ≡ a [ZMOD 2 ^ w]) := by
    funext e
    rw [takes, Value.equals_int hx, decide_eq_decide, ← Word.wrap_eq_wrap_iff]
    have hword : Word.wrap w a = a := Int.emod_eq_of_lt hnonneg hlt
    rw [hword]
  rw [chosen, firstCongruent, htakes]

theorem takes_congr {e e' : Int × Nat} (h : e.1 ≡ e'.1 [ZMOD 2 ^ w]) : takes x w e = takes x w e' := by
  rw [takes, takes, Word.wrap_eq_wrap_iff.mpr h]

theorem congruent_of_takes {e e' : Int × Nat} (h : takes x w e = true) (h' : takes x w e' = true) :
    e.1 ≡ e'.1 [ZMOD 2 ^ w] :=
  Word.wrap_eq_wrap_iff.mp (Value.eq_of_equals_int h h')

/-- Cases of which no two are for one word may be looked through in any order. -/
theorem find?_takes_perm (hperm : es.Perm es')
    (hapart : es.Pairwise fun e e' => ¬e.1 ≡ e'.1 [ZMOD 2 ^ w]) :
    es'.find? (takes x w) = es.find? (takes x w) := by
  induction hperm with
  | nil => rfl
  | cons e _ ih =>
      rw [List.find?_cons, List.find?_cons, ih (List.pairwise_cons.mp hapart).2]
  | swap e e' es =>
      have hne : ¬e'.1 ≡ e.1 [ZMOD 2 ^ w] := (List.pairwise_cons.mp hapart).1 e List.mem_cons_self
      rw [List.find?_cons, List.find?_cons, List.find?_cons, List.find?_cons]
      cases he : takes x w e <;> cases he' : takes x w e' <;> try rfl
      exact absurd (congruent_of_takes he' he) hne
  | trans hperm _ ih ih' =>
      have hsymm (e e' : Int × Nat) (h : ¬e.1 ≡ e'.1 [ZMOD 2 ^ w]) : ¬e'.1 ≡ e.1 [ZMOD 2 ^ w] :=
        fun h' => h h'.symm
      rw [ih' ((hperm.pairwise_iff fun {e e'} => hsymm e e').mp hapart), ih hapart]

/-- Cases that are for the same words are taken alike, by any value. -/
theorem chosen_rearranged (h : Rearranged w es es') : chosen x d w es' = chosen x d w es := by
  rw [chosen, chosen]
  cases h with
  | permuted hapart hperm => rw [find?_takes_perm hperm hapart]
  | renumbered hcongr =>
      refine congrArg (fun l : Option Nat => l.getD d) ?_
      induction hcongr with
      | nil => rfl
      | @cons e e' _ _ he _ ih =>
          rw [List.find?_cons, List.find?_cons, ← takes_congr he.1]
          cases takes x w e with
          | true => exact congrArg some he.2
          | false => exact ih

end Switch

/-! ## Steps -/

namespace Interpreted

open Machine Switch

variable {p : Program} {f : Function} {env : Env} {x : Value} {d w : Nat} {m m₁ : Memory}

theorem chooseCase_caseOf (p : Program) (f : Function) (env : Env) (x : Value) (d w : Nat)
    (es : List (Int × Nat)) :
    chooseCase (eval p f env) x d (es.map (caseOf w)) = pure (chosen x d w es) := by
  induction es with
  | nil => rfl
  | cons e es ih =>
      -- the number of a case comes to the word that it is at its width
      have hfirst : chooseCase (eval p f env) x d ((e :: es).map (caseOf w)) =
          if takes x w e then pure e.2 else chooseCase (eval p f env) x d (es.map (caseOf w)) := rfl
      rw [hfirst, ih, chosen_cons]
      split <;> rfl

theorem perform_switch {i : Instr} {v : Operand} {es : List (Int × Nat)}
    (hop : i.op = .switch v d (es.map (caseOf w))) (hx : (eval p f env v).on m = (.ok x, m₁)) :
    (perform p f env i).on m = (.ok (.goto (chosen x d w es)), m₁) := by
  have hcontrol : perform p f env i = (do
      let x ← eval p f env v
      return .goto (← chooseCase (eval p f env) x d (es.map (caseOf w)))) := by
    simp only [perform, control, hop]
  rw [hcontrol, Effect.on_bind_of_ok hx, chooseCase_caseOf]
  rfl

/-- A switch goes on at the label of the first case that the value takes. -/
theorem step_switch {fr : Frame} {i : Instr} {v : Operand} {es : List (Int × Nat)} (waiting : List Frame)
    (hi : fr.current? = some i) (hop : i.op = .switch v d (es.map (caseOf w)))
    (hx : (eval p fr.function fr.env v).on m = (.ok x, m₁)) :
    (step rules p fr waiting).on m =
      (do
        let next ← jump rules p fr (some fr.block) (chosen x d w es)
        return .running next waiting : Exec State).on m₁ := by
  have hperform : (rules.perform p fr.function fr.env i).on m = _ := perform_switch hop hx
  unfold step
  rw [hi]
  exact Effect.on_bind_of_ok hperform

/-- Switches with cases that are for the same words ask for the same. -/
theorem perform_rearranged {i i' : Instr} (h : i.Rearranged i') : perform p f env i' = perform p f env i := by
  obtain rfl | ⟨v, d, w, es, es', hop, rfl, hes⟩ := h
  · rfl
  · have hchoose (x : Value) : chooseCase (eval p f env) x d (es'.map (caseOf w)) =
        chooseCase (eval p f env) x d (es.map (caseOf w)) := by
      rw [chooseCase_caseOf, chooseCase_caseOf, chosen_rearranged hes]
    simp only [perform, control, hop, hchoose]

end Interpreted

end Ssa

/-
# `Ssa.Proofs.Exec.Phis` — the phis of a block are bound at once

Where control goes on at a block, its leading phis read their entries one after another, and only then is
any of them bound.  So what a phi reads is a value of the frame that control came with, whatever the other
phis are.  Reading may make the cell of a variable, but nothing else; what has a value, and what fails,
is the same before and after that.

**Proved here.**

    what was read is still what it was, and what failed fails still    (`eval_again`, `eval_fails_again`)
    what phis come to, one after another                     (`mapM_phiValue_ok`, `mapM_phiValue_error`)
    a jump binds all phis at once, or fails for the first without a value           (`jump_atOnce`)
-/
import Ssa.Proofs.Exec.Furnished
import Ssa.Proofs.Exec.Steps

namespace Ssa

/-! ## Values that are bound together -/

namespace Env

variable {env : Env} {vs : List (Nat × Value)} {id : Nat} {v : Value}

theorem lookup_bindAll_of_not_mem (h : id ∉ vs.map Prod.fst) :
    (env.bindAll vs).lookup id = env.lookup id := by
  induction vs generalizing env with
  | nil => rfl
  | cons e vs ih =>
      rw [List.map_cons, List.mem_cons, not_or] at h
      exact (ih h.2).trans ((lookup_bind env e.1 e.2 id).trans (if_neg h.1))

/-- Of values that are bound under different numbers, each is found under its own. -/
theorem lookup_bindAll_of_mem (hd : (vs.map Prod.fst).Nodup) (h : (id, v) ∈ vs) :
    (env.bindAll vs).lookup id = some v := by
  induction vs generalizing env with
  | nil => cases h
  | cons e vs ih =>
      rw [List.map_cons, List.nodup_cons] at hd
      rcases List.mem_cons.mp h with rfl | h
      · exact (lookup_bindAll_of_not_mem hd.1).trans ((lookup_bind env id v id).trans (if_pos rfl))
      · exact ih hd.2 h

/-- The order in which they are bound does not matter. -/
theorem lookup_bindAll_perm {us : List (Nat × Value)} (hd : (vs.map Prod.fst).Nodup) (h : us.Perm vs)
    (id : Nat) : (env.bindAll us).lookup id = (env.bindAll vs).lookup id := by
  have hids := h.map Prod.fst
  by_cases hid : id ∈ vs.map Prod.fst
  · obtain ⟨⟨id, v⟩, hv, rfl⟩ := List.mem_map.mp hid
    rw [lookup_bindAll_of_mem hd hv, lookup_bindAll_of_mem (hids.nodup_iff.mpr hd) (h.mem_iff.mpr hv)]
  · rw [lookup_bindAll_of_not_mem hid, lookup_bindAll_of_not_mem (mt hids.mem_iff.mp hid)]

end Env

/-! ## Reading an operand again -/

namespace Interpreted

variable {p : Program} {f : Function} {env : Env} {o : Operand} {v : Value} {e : Failure}
  {mem mem₁ mem₂ : Memory}

/-- Asking for the cell of a variable comes to the cell that it has then, or fails for its initializer. -/
theorem globalCell_cases {function : String} {i : Nat} {x : Variable} {r : Except Failure Value}
    (h : (globalCell function i x).on mem = (r, mem₁)) :
    (∃ a, r = .ok (.cell a) ∧ mem₁.global? i = some a) ∨
      ∃ e, r = .error e ∧ mem₁ = mem ∧ mem.global? i = none ∧ initialValue function x = .error e := by
  cases hi : mem.global? i with
  | some a =>
      rw [Ties.globalCell_of_some function x hi] at h
      cases h
      exact .inl ⟨a, rfl, hi⟩
  | none =>
      rw [Ties.globalCell_of_none function x hi] at h
      cases hv : initialValue function x with
      | error e =>
          rw [hv] at h
          cases h
          exact .inr ⟨e, rfl, rfl, rfl, rfl⟩
      | ok v =>
          rw [hv] at h
          cases h
          exact .inl ⟨_, rfl, (Ties.global?_setGlobal _ i _ i).trans (if_pos rfl)⟩

/-- What an operand came to it comes to whenever it is read again, and nothing changes then. -/
theorem eval_again (h : (eval p f env o).on mem = (.ok v, mem₁)) (honward : mem₁.Onward p.module mem₂) :
    (eval p f env o).on mem₂ = (.ok v, mem₂) := by
  cases o with
  | const c =>
      unfold eval at h ⊢
      rw [Exec.on_lift] at h ⊢
      rw [(Prod.mk.inj h).1]
  | «local» id t =>
      unfold eval at h ⊢
      dsimp only at h ⊢
      split at h
      · cases h
        rfl
      · cases h
  | global i t =>
      unfold eval at h ⊢
      dsimp only at h ⊢
      split at h
      · rename_i x _
        rcases globalCell_cases h with ⟨a, hv, hi⟩ | ⟨e, he, -⟩
        · cases hv
          exact Ties.globalCell_of_some _ x (honward.keeps hi)
        · cases he
      · cases h
        rfl
      · cases h

/-- A variable whose initializer gives no value has no cell later if it has none now. -/
theorem global?_eq_none_of_onward {i : Nat} {x : Variable} (hx : p.module.symbols[i]? = some (.variable x))
    (hv : ∀ function v, initialValue function x ≠ .ok v) (honward : mem.Onward p.module mem₂)
    (hi : mem.global? i = none) : mem₂.global? i = none := by
  induction honward with
  | here => exact hi
  | adds | writes => assumption
  | @refers mem₁ function j y _ hy ih =>
      rcases Memory.globalCell_leaves function j y mem₁ with heq | ⟨-, v, hyv, heq⟩
      · rw [heq]
        exact ih
      · rw [heq, Ties.global?_setGlobal, if_neg]
        · exact ih
        · rintro rfl
          cases hx.symm.trans hy
          exact hv function v hyv

/-- An operand that has no value changes nothing, and has none whenever it is read again. -/
theorem eval_fails_again (h : (eval p f env o).on mem = (.error e, mem₁))
    (honward : mem.Onward p.module mem₂) :
    mem₁ = mem ∧ (eval p f env o).on mem₂ = (.error e, mem₂) := by
  cases o with
  | const c =>
      unfold eval at h ⊢
      rw [Exec.on_lift] at h ⊢
      obtain ⟨he, rfl⟩ := Prod.mk.inj h
      exact ⟨rfl, by rw [he]⟩
  | «local» id t =>
      unfold eval at h ⊢
      dsimp only at h ⊢
      split at h
      · cases h
      · cases h
        exact ⟨rfl, rfl⟩
  | global i t =>
      unfold eval at h ⊢
      dsimp only at h ⊢
      split at h
      · rename_i x hx
        rcases globalCell_cases h with ⟨a, hv, -⟩ | ⟨e', he, rfl, hi, hinit⟩
        · cases hv
        · cases he
          have hnone (function : String) (v : Value) : initialValue function x ≠ .ok v := by
            intro hok
            rw [(initialValue_eq_ok_iff function f.name x v).mp hok] at hinit
            cases hinit
          refine ⟨rfl, ?_⟩
          rw [Ties.globalCell_of_none _ x (global?_eq_none_of_onward hx hnone honward hi), hinit]
      · cases h
      · cases h
        exact ⟨rfl, rfl⟩

/-- An operand that has a value has one later, also where its cell was not made in between. -/
theorem eval_succeeds_later (h : (eval p f env o).on mem = (.ok v, mem₁))
    (honward : mem.Onward p.module mem₂) : ∃ v' mem', (eval p f env o).on mem₂ = (.ok v', mem') := by
  rcases hlater : (eval p f env o).on mem₂ with ⟨e | v', mem'⟩
  · exfalso
    cases o with
    | const c =>
        unfold eval at h hlater
        rw [Exec.on_lift] at h hlater
        nomatch (Prod.mk.inj h).1.symm.trans (Prod.mk.inj hlater).1
    | «local» id t =>
        unfold eval at h hlater
        dsimp only at h hlater
        split at h
        · rename_i hid
          rw [hid] at hlater
          cases hlater
        · cases h
    | global i t =>
        unfold eval at h hlater
        dsimp only at h hlater
        split at h
        · rename_i x hx
          rw [hx] at hlater
          rcases globalCell_cases hlater with ⟨a, ha, -⟩ | ⟨e', -, -, hi, hinit⟩
          · cases ha
          -- it has no cell later, and so it has none now
          · have hnow : mem.global? i = none := by
              cases hi' : mem.global? i with
              | none => rfl
              | some a => nomatch (honward.keeps hi').symm.trans hi
            rw [Ties.globalCell_of_none _ x hnow, hinit] at h
            cases h
        · rename_i g hg
          rw [hg] at hlater
          cases hlater
        · cases h
  · exact ⟨v', mem', rfl⟩

end Interpreted

/-! ## Phis one after another -/

namespace Machine

open Interpreted (rules eval)

variable {p : Program} {f : Function} {env : Env} {source : Option Nat} {i : Instr} {is : List Instr}
  {e : Failure} {w : Nat × Value} {ws : List (Nat × Value)} {mem mem₁ mem₂ : Memory}

/-- What a phi came to: its number, with what its first entry for the block has for a value. -/
theorem phiValue_ok (h : (phiValue rules p f env source i).on mem = (.ok w, mem₁)) :
    ∃ o v, entryFor (incomingOf i) source = some o ∧ (eval p f env o).on mem = (.ok v, mem₁) ∧
      w = (i.id, v) := by
  unfold phiValue at h
  split at h
  · rename_i o ho
    obtain ⟨v, mem', hv, hw⟩ := Effect.on_bind_ok h
    cases hw
    exact ⟨o, v, ho, hv, rfl⟩
  · cases h

theorem phiValue_of_entry {o : Operand} (ho : entryFor (incomingOf i) source = some o)
    {r : Except Failure Value} (hr : (eval p f env o).on mem = (r, mem₁)) :
    (phiValue rules p f env source i).on mem = (r.map (i.id, ·), mem₁) := by
  unfold phiValue
  rw [ho]
  cases r with
  | error e => exact Effect.on_bind_of_error hr
  | ok v => exact Effect.on_bind_of_ok hr

theorem phiValue_of_none (ho : entryFor (incomingOf i) source = none) :
    (phiValue rules p f env source i).on mem =
      (.error (.noIncoming (f.localName i.id) f.name (sourceName f source)), mem) := by
  unfold phiValue
  rw [ho]
  rfl

theorem phiValue_again (h : (phiValue rules p f env source i).on mem = (.ok w, mem₁))
    (honward : mem₁.Onward p.module mem₂) :
    (phiValue rules p f env source i).on mem₂ = (.ok w, mem₂) := by
  obtain ⟨o, v, ho, hv, rfl⟩ := phiValue_ok h
  exact phiValue_of_entry ho (Interpreted.eval_again hv honward)

theorem phiValue_fails_again (h : (phiValue rules p f env source i).on mem = (.error e, mem₁))
    (honward : mem.Onward p.module mem₂) :
    mem₁ = mem ∧ (phiValue rules p f env source i).on mem₂ = (.error e, mem₂) := by
  cases ho : entryFor (incomingOf i) source with
  | none =>
      rw [phiValue_of_none ho] at h ⊢
      cases h
      exact ⟨rfl, rfl⟩
  | some o =>
      rcases hr : (eval p f env o).on mem with ⟨e' | v, mem'⟩
      · rw [phiValue_of_entry ho hr] at h
        cases h
        obtain ⟨rfl, hagain⟩ := Interpreted.eval_fails_again hr honward
        exact ⟨rfl, phiValue_of_entry ho hagain⟩
      · rw [phiValue_of_entry ho hr] at h
        cases h

theorem phiValue_onward (h : (phiValue rules p f env source i).on mem = (.ok w, mem₁)) :
    mem.Onward p.module mem₁ := by
  obtain ⟨o, v, -, hv, -⟩ := phiValue_ok h
  have honward := Interpreted.eval_leads p f env o mem
  rwa [hv] at honward

/-- A phi that has no value later had none before, for the same reason. -/
theorem phiValue_failed_before (honward : mem.Onward p.module mem₁)
    (h : (phiValue rules p f env source i).on mem₁ = (.error e, mem₁)) :
    (phiValue rules p f env source i).on mem = (.error e, mem) := by
  cases ho : entryFor (incomingOf i) source with
  | none =>
      rw [phiValue_of_none ho] at h ⊢
      cases h
      rfl
  | some o =>
      rcases hnow : (eval p f env o).on mem with ⟨e' | v, mem₂⟩
      · obtain ⟨rfl, hagain⟩ := Interpreted.eval_fails_again hnow honward
        rw [phiValue_of_entry ho hagain] at h
        cases h
        exact phiValue_of_entry ho hnow
      · obtain ⟨v', mem₃, hlater⟩ := Interpreted.eval_succeeds_later hnow honward
        rw [phiValue_of_entry ho hlater] at h
        cases h

/-- Where all phis of a list came to something, they come to the same afterwards. -/
theorem mapM_phiValue_ok
    (h : (is.mapM (phiValue rules p f env source)).on mem = (.ok ws, mem₁)) :
    mem.Onward p.module mem₁ ∧
      List.Forall₂ (fun i w => (phiValue rules p f env source i).on mem₁ = (.ok w, mem₁)) is ws := by
  induction is generalizing mem ws with
  | nil =>
      cases h
      exact ⟨.here, .nil⟩
  | cons i is ih =>
      rw [List.mapM_cons] at h
      obtain ⟨w, mem', hw, hrest⟩ := Effect.on_bind_ok h
      obtain ⟨ws', mem'', hws, hpure⟩ := Effect.on_bind_ok hrest
      cases hpure
      obtain ⟨honward, hall⟩ := ih hws
      exact ⟨(phiValue_onward hw).trans honward, .cons (phiValue_again hw honward) hall⟩

theorem phiValue_of_mem
    (h : List.Forall₂ (fun i w => (phiValue rules p f env source i).on mem = (.ok w, mem₁)) is ws)
    (hi : i ∈ is) : ∃ w ∈ ws, (phiValue rules p f env source i).on mem = (.ok w, mem₁) := by
  obtain ⟨k, hk, rfl⟩ := List.mem_iff_getElem.mp hi
  have hk' : k < ws.length := h.length_eq ▸ hk
  exact ⟨ws[k], List.getElem_mem hk', h.get hk hk'⟩

/-- The values are bound under the numbers of the phis. -/
theorem ids_of_phiValues
    (h : List.Forall₂ (fun i w => (phiValue rules p f env source i).on mem = (.ok w, mem₁)) is ws) :
    ws.map Prod.fst = is.map Instr.id := by
  induction h with
  | nil => rfl
  | cons hw _ ih =>
      obtain ⟨o, v, -, -, rfl⟩ := phiValue_ok hw
      exact congrArg _ ih

/-- Where a list of phis failed, it is for the first of them that has no value. -/
theorem mapM_phiValue_error
    (h : (is.mapM (phiValue rules p f env source)).on mem = (.error e, mem₁)) :
    mem.Onward p.module mem₁ ∧ ∃ before i after, is = before ++ i :: after ∧
      (∀ j ∈ before, ∃ w, (phiValue rules p f env source j).on mem₁ = (.ok w, mem₁)) ∧
      (phiValue rules p f env source i).on mem₁ = (.error e, mem₁) := by
  induction is generalizing mem with
  | nil => cases h
  | cons i is ih =>
      rw [List.mapM_cons] at h
      rcases Effect.on_bind_cases h with ⟨e', hi, he⟩ | ⟨w, mem', hw, hrest⟩
      · cases he
        obtain ⟨rfl, hagain⟩ := phiValue_fails_again hi .here
        exact ⟨.here, [], i, is, rfl, nofun, hagain⟩
      · rcases Effect.on_bind_cases hrest with ⟨e', hfails, he⟩ | ⟨ws, mem'', -, hpure⟩
        · cases he
          obtain ⟨honward, before, j, after, rfl, hbefore, hj⟩ := ih hfails
          refine ⟨(phiValue_onward hw).trans honward, i :: before, j, after, rfl, ?_, hj⟩
          intro k hk
          rcases List.mem_cons.mp hk with rfl | hk
          · exact ⟨w, phiValue_again hw honward⟩
          · exact hbefore k hk
        · cases hpure

/-! ## A jump -/

/-- A phi has a value from a memory on: its first entry for the block has one in the frame. -/
def PhiHasValue (p : Program) (fr : Frame) (source : Option Nat) (mem : Memory) (i : Instr) : Prop :=
  ∃ o v mem', entryFor (incomingOf i) source = some o ∧
    (eval p fr.function fr.env o).on mem = (.ok v, mem')

/-- What a frame becomes where all leading phis of a block are bound at once: each to what its first entry
for the block that control comes from stands for in the frame as it was.  The other values stay. -/
structure BindsAtOnce (p : Program) (fr : Frame) (source : Option Nat) (target : Nat) (next : Frame)
    (mem : Memory) : Prop where
  phis : ∀ i ∈ fr.function.leadingPhis target, ∃ o v, entryFor (incomingOf i) source = some o ∧
    (eval p fr.function fr.env o).on mem = (.ok v, mem) ∧ next.env.lookup i.id = some v
  others : ∀ id, id ∉ (fr.function.leadingPhis target).map Instr.id →
    next.env.lookup id = fr.env.lookup id
  function : next.function = fr.function
  block : next.block = target
  pc : next.pc = (fr.function.leadingPhis target).length
  pending : next.pending = fr.pending

/-- How a jump fails: for the first of the leading phis that has no value.  Either it has no entry for the
block that control comes from, or that has no value in the frame. -/
def FailsForFirst (p : Program) (fr : Frame) (source : Option Nat) (target : Nat) (mem : Memory)
    (e : Failure) : Prop :=
  ∃ before i after, fr.function.leadingPhis target = before ++ i :: after ∧
    (∀ j ∈ before, PhiHasValue p fr source mem j) ∧
    (entryFor (incomingOf i) source = none ∧
        e = .noIncoming (fr.function.localName i.id) fr.function.name (sourceName fr.function source) ∨
      ∃ o mem', entryFor (incomingOf i) source = some o ∧
        (eval p fr.function fr.env o).on mem = (.error e, mem'))

variable {fr next : Frame} {target : Nat}

theorem phiHasValue_before (honward : mem.Onward p.module mem₁)
    (h : (phiValue rules p fr.function fr.env source i).on mem₁ = (.ok w, mem₁)) :
    PhiHasValue p fr source mem i := by
  obtain ⟨o, v, ho, hv, -⟩ := phiValue_ok h
  rcases hnow : (eval p fr.function fr.env o).on mem with ⟨e | v', mem'⟩
  · nomatch hv.symm.trans (Interpreted.eval_fails_again hnow honward).2
  · exact ⟨o, v', mem', ho, hnow⟩

/-- A jump goes on if and only if all leading phis have values, and then binds them at once; otherwise it
fails for the first that has none. -/
theorem jump_atOnce (hd : ((fr.function.leadingPhis target).map Instr.id).Nodup) (source : Option Nat)
    (mem : Memory) :
    (∃ next mem', (jump rules p fr source target).on mem = (.ok next, mem') ∧
        (∀ i ∈ fr.function.leadingPhis target, PhiHasValue p fr source mem i) ∧
        BindsAtOnce p fr source target next mem') ∨
      ∃ e mem', (jump rules p fr source target).on mem = (.error e, mem') ∧
        FailsForFirst p fr source target mem e := by
  rw [on_jump]
  rcases hon : ((fr.function.leadingPhis target).mapM
    (phiValue rules p fr.function fr.env source)).on mem with ⟨e | ws, mem'⟩
  · obtain ⟨honward, before, i, after, hphis, hbefore, hi⟩ := mapM_phiValue_error hon
    refine .inr ⟨e, mem', rfl, before, i, after, hphis, fun j hj => ?_, ?_⟩
    · obtain ⟨w, hw⟩ := hbefore j hj
      exact phiHasValue_before honward hw
    · have hfails := phiValue_failed_before honward hi
      cases ho : entryFor (incomingOf i) source with
      | none =>
          rw [phiValue_of_none ho] at hfails
          cases hfails
          exact .inl ⟨rfl, rfl⟩
      | some o =>
          rcases hnow : (eval p fr.function fr.env o).on mem with ⟨e' | v, mem₂⟩
          · rw [phiValue_of_entry ho hnow] at hfails
            cases hfails
            exact .inr ⟨o, mem, rfl, hnow⟩
          · rw [phiValue_of_entry ho hnow] at hfails
            cases hfails
  · obtain ⟨honward, hall⟩ := mapM_phiValue_ok hon
    have hids := ids_of_phiValues hall
    refine .inl ⟨_, mem', rfl, fun i hi => ?_, fun i hi => ?_, fun id hid => ?_, rfl, rfl, rfl, rfl⟩
    · obtain ⟨w, -, hw⟩ := phiValue_of_mem hall hi
      exact phiHasValue_before honward hw
    · obtain ⟨w, hmem, hw⟩ := phiValue_of_mem hall hi
      obtain ⟨o, v, ho, hv, rfl⟩ := phiValue_ok hw
      exact ⟨o, v, ho, hv, Env.lookup_bindAll_of_mem (hids ▸ hd) hmem⟩
    · exact Env.lookup_bindAll_of_not_mem (hids ▸ hid)

end Machine

end Ssa

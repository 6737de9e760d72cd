/-
# `Ssa.Proofs.Exec.Zeroed` — runs with address zero in place of null

A module may have address zero where another has null.  Their runs are taken side by side: what the one
holds as null the other may hold as the address zero, wherever it came to be stored, passed or returned.

**Proved here.**

    an equality does not tell them apart, unless it has both before it    (`Value.isOne_zeroed`)
    new cells and writing keep memories side by side                      (`Memory.Zeroed.addCell`, …)
    binding values, waiting and going on keep frames side by side         (`Frame.Zeroed.advance`, …)
-/
import Ssa.Proofs.Exec.Addresses
import Ssa.Proofs.Exec.Ready
import Ssa.Proofs.Exec.Sharing
import Ssa.Proofs.Program.Zeroed

namespace Ssa

/-! ## Values and memories -/

/-- Two values are the same, or null and the address zero. -/
inductive Value.Zeroed : Value → Value → Prop
  | same (v : Value) : Zeroed v v
  | zero : Zeroed .null (.int 0)
  | null : Zeroed (.int 0) .null

namespace Value.Zeroed

variable {v w : Value}

theorem isTrue (h : v.Zeroed w) : w.isTrue = v.isTrue := by cases h <;> rfl

end Value.Zeroed

theorem Value.areNoughts_comm (v w : Value) : v.areNoughts w = w.areNoughts v := by
  cases v <;> cases w <;> rfl

/-- What may stand beside null, and beside zero, is neither. -/
theorem Value.apart_of_areNoughts {w : Value} (hn : null.areNoughts w = false)
    (hz : (int 0).areNoughts w = false) :
    w ≠ .null ∧ w.int? ≠ some 0 :=
  ⟨fun hw => by simp [hw, areNoughts, int?] at hz, fun hw => by simp [areNoughts, hw] at hn⟩

/-- Null and zero are taken for nothing else. -/
theorem Value.isOne_of_apart {v w : Value} {onePlace : Bool} (hv : v = .null ∨ v = .int 0)
    (hw : w ≠ .null) (hzero : w.int? ≠ some 0) (hone : onePlace = true → v = w) :
    v.isOne onePlace w = false ∧ w.isOne onePlace v = false := by
  have hplace : onePlace = false := by
    refine Bool.eq_false_iff.mpr fun h => ?_
    obtain rfl | rfl := hv
    · exact hw (hone h).symm
    · exact hzero (hone h ▸ rfl)
  subst hplace
  obtain rfl | rfl := hv
  · cases w <;> first | exact ⟨rfl, rfl⟩ | exact absurd rfl hw
  · cases w with
    | int n =>
        have hn : n ≠ 0 := fun hn => hzero (congrArg some hn)
        simp [isOne, int?, hn, hn.symm]
    | truth b => cases b <;> first | exact ⟨rfl, rfl⟩ | exact absurd rfl hzero
    | _ => exact ⟨rfl, rfl⟩

/-- An equality does not tell values apart, as long as it has null and zero before it on neither side. -/
theorem Value.isOne_zeroed {x x' y y' : Value} {onePlace onePlace' : Bool} (hx : x.Zeroed x')
    (hy : y.Zeroed y') (h : x.areNoughts y = false) (h' : x'.areNoughts y' = false)
    (hone : onePlace = true → x = y) (hone' : onePlace' = true → x' = y')
    (hplace : x' = x → y' = y → onePlace' = onePlace) :
    x'.isOne onePlace' y' = x.isOne onePlace y := by
  cases hx with
  | same =>
      cases hy with
      | same => rw [hplace rfl rfl]
      | zero =>
          obtain ⟨hnull, hzero⟩ := apart_of_areNoughts (areNoughts_comm x _ ▸ h) (areNoughts_comm x _ ▸ h')
          rw [(isOne_of_apart (.inl rfl) hnull hzero fun hb => (hone hb).symm).2,
            (isOne_of_apart (.inr rfl) hnull hzero fun hb => (hone' hb).symm).2]
      | null =>
          obtain ⟨hnull, hzero⟩ := apart_of_areNoughts (areNoughts_comm x _ ▸ h') (areNoughts_comm x _ ▸ h)
          rw [(isOne_of_apart (.inr rfl) hnull hzero fun hb => (hone hb).symm).2,
            (isOne_of_apart (.inl rfl) hnull hzero fun hb => (hone' hb).symm).2]
  | zero =>
      cases hy with
      | same =>
          obtain ⟨hnull, hzero⟩ := apart_of_areNoughts h h'
          rw [(isOne_of_apart (.inl rfl) hnull hzero hone).1,
            (isOne_of_apart (.inr rfl) hnull hzero hone').1]
      | zero => cases onePlace <;> cases onePlace' <;> rfl
      | null => cases h
  | null =>
      cases hy with
      | same =>
          obtain ⟨hnull, hzero⟩ := apart_of_areNoughts h' h
          rw [(isOne_of_apart (.inr rfl) hnull hzero hone).1,
            (isOne_of_apart (.inl rfl) hnull hzero hone').1]
      | zero => cases h
      | null => cases onePlace <;> cases onePlace' <;> rfl

/-- Two cells are of one type, and hold the same, or null and the address zero. -/
structure Cell.Zeroed (c c' : Cell) : Prop where
  type : c'.type = c.type
  value : c.value.Zeroed c'.value

/-- Two memories have cells in the same places. -/
structure Memory.Zeroed (mem mem' : Memory) : Prop where
  globals : mem'.globals = mem.globals
  size : mem'.storage.cells.size = mem.storage.cells.size
  cells : ∀ id, Option.Rel Cell.Zeroed (mem.storage.cell? id) (mem'.storage.cell? id)

namespace Memory.Zeroed

variable {mem mem' : Memory} {v w : Value}

theorem addCell (h : mem.Zeroed mem') (t : Ty) (hvw : v.Zeroed w) :
    Memory.Zeroed { mem with storage := mem.storage.addCell ⟨t, v⟩ }
      { mem' with storage := mem'.storage.addCell ⟨t, w⟩ } where
  globals := h.globals
  size := by
    show (mem'.storage.cells.push _).size = (mem.storage.cells.push _).size
    rw [Array.size_push, Array.size_push, h.size]
  cells id := by
    rw [Storage.cell?_addCell, Storage.cell?_addCell, h.size]
    split
    · exact .some ⟨rfl, hvw⟩
    · exact h.cells id

theorem setGlobal (h : mem.Zeroed mem') (i id : Nat) :
    (mem.setGlobal i id).Zeroed (mem'.setGlobal i id) where
  globals := congrArg ((i, id) :: ·) h.globals
  size := h.size
  cells := h.cells

theorem write (h : mem.Zeroed mem') (id : Nat) (hvw : v.Zeroed w) :
    Memory.Zeroed { mem with storage := mem.storage.write id v }
      { mem' with storage := mem'.storage.write id w } where
  globals := h.globals
  size := by
    show (mem'.storage.cells.modify id _).size = (mem.storage.cells.modify id _).size
    rw [Array.size_modify, Array.size_modify, h.size]
  cells k := by
    rw [Storage.cell?_write, Storage.cell?_write]
    have hk := h.cells k
    split
    · generalize mem.storage.cell? k = x, mem'.storage.cell? k = y at hk
      cases hk with
      | none => exact .none
      | some hc => exact .some ⟨hc.type, hvw⟩
    · exact hk

end Memory.Zeroed

/-- Two memories side by side. -/
abbrev zeroing : Pairing Memory Memory := .still Memory.Zeroed

/-! ## Frames -/

/-- Two frames of a function have values under the same numbers, and for what is made from the integer
zero just that. -/
structure Env.Zeroed (f : Function) (env env' : Env) : Prop where
  values : ∀ id, Option.Rel Value.Zeroed (env.lookup id) (env'.lookup id)
  left : ∀ z v, f.MakesZero z → env.lookup z = some v → v = .int 0
  right : ∀ z v, f.MakesZero z → env'.lookup z = some v → v = .int 0

namespace Env.Zeroed

variable {f : Function} {env env' : Env} {v w : Value} {id : Nat}

theorem bind (h : env.Zeroed f env') (hvw : v.Zeroed w)
    (hz : f.MakesZero id → v = .int 0 ∧ w = .int 0) :
    (env.bind id v).Zeroed f (env'.bind id w) := by
  constructor
  · intro k
    rw [Env.lookup_bind, Env.lookup_bind]
    split
    · exact .some hvw
    · exact h.values k
  · intro z u hmakes hu
    rw [Env.lookup_bind] at hu
    split at hu
    · rename_i hzid
      cases hu
      exact (hz (hzid ▸ hmakes)).1
    · exact h.left z u hmakes hu
  · intro z u hmakes hu
    rw [Env.lookup_bind] at hu
    split at hu
    · rename_i hzid
      cases hu
      exact (hz (hzid ▸ hmakes)).2
    · exact h.right z u hmakes hu

theorem bindAll {vs ws : List (Nat × Value)} (h : env.Zeroed f env')
    (hvs : List.Forall₂ (fun x y => x.1 = y.1 ∧ x.2.Zeroed y.2 ∧ ¬f.MakesZero x.1) vs ws) :
    (env.bindAll vs).Zeroed f (env'.bindAll ws) := by
  induction hvs generalizing env env' with
  | nil => exact h
  | @cons x y vs ws hxy _ ih =>
      refine ih ?_
      show (env.bind x.1 x.2).Zeroed f (env'.bind y.1 y.2)
      rw [← hxy.1]
      exact h.bind hxy.2.1 fun hz => absurd hz hxy.2.2

end Env.Zeroed

/-- Two frames are at one place of functions of the one of which some operands were replaced. -/
structure Frame.Zeroed (fr fr' : Frame) : Prop where
  function : fr.function.Zeroed fr'.function
  env : fr.env.Zeroed fr.function fr'.env
  block : fr'.block = fr.block
  pc : fr'.pc = fr.pc
  pending : fr'.pending = fr.pending
  waits : ∀ id, fr.pending = some id → ¬fr.function.MakesZero id

namespace Frame.Zeroed

variable {fr fr' : Frame} {v w : Value} {id : Nat}

theorem current? (h : fr.Zeroed fr') :
    Option.Rel (Instr.Zeroed fr.function) fr.current? fr'.current? := by
  rw [Frame.current?, Frame.current?, h.block, h.pc]
  have hinstrs := h.function.instrs fr.block
  generalize fr.function.instrs fr.block = is, fr'.function.instrs fr.block = is' at hinstrs
  generalize fr.pc = pc
  induction hinstrs generalizing pc with
  | nil => exact .none
  | cons hi _ ih =>
      cases pc with
      | zero => exact .some hi
      | succ pc => exact ih pc

theorem advance (h : fr.Zeroed fr') (hvw : v.Zeroed w)
    (hz : fr.function.MakesZero id → v = .int 0 ∧ w = .int 0) :
    (fr.advance id v).Zeroed (fr'.advance id w) :=
  ⟨h.function, h.env.bind hvw hz, h.block, congrArg (· + 1) h.pc, rfl, nofun⟩

theorem await (h : fr.Zeroed fr') (hz : ¬fr.function.MakesZero id) :
    (fr.await id).Zeroed (fr'.await id) where
  function := h.function
  env := h.env
  block := h.block
  pc := h.pc
  pending := rfl
  waits k hk := by
    cases hk
    exact hz

theorem resume (h : fr.Zeroed fr') (hvw : v.Zeroed w) : (fr.resume v).Zeroed (fr'.resume w) := by
  have hwaits := h.waits
  rw [Frame.resume, Frame.resume, h.pending]
  split
  · rename_i id hid
    exact h.advance hvw fun hz => absurd hz (hwaits id hid)
  · exact h

end Frame.Zeroed

/-- Two machines are at one place. -/
inductive Machine.State.Zeroed : Machine.State → Machine.State → Prop
  | running {fr fr' : Frame} {waiting waiting' : List Frame} : fr.Zeroed fr' →
      List.Forall₂ Frame.Zeroed waiting waiting' →
      Zeroed (.running fr waiting) (.running fr' waiting')
  | done {v w : Value} : v.Zeroed w → Zeroed (.done v) (.done w)

theorem Machine.leave_zeroed {v w : Value} {waiting waiting' : List Frame} (hvw : v.Zeroed w)
    (h : List.Forall₂ Frame.Zeroed waiting waiting') : (leave v waiting).Zeroed (leave w waiting') := by
  cases h with
  | nil => exact .done hvw
  | cons hfr hrest => exact .running (hfr.resume hvw) hrest

end Ssa

/-
# `Ssa.Proofs.Validity.Available` — what is available where it is used

The verifier finds, for each block that a way leads to, the values that are available at its head.
Here is what the verdict says about single places: a way out of a block brings all that is listed
at the head of the block that it leads to; what an instruction uses is listed at its head or
computed before it in its block; what a phi takes from a block is available at the end of that
block.

**Proved here.**

    a way out of a block that is reached brings all that is listed where it leads   (`atMost_of_target`)
    built, judged, and without remarks  ⟹  ordered                                 (`isOrdered`)
-/
import Ssa.Proofs.Validity.Accepted

namespace Ssa

/-! ## Lists of what is available -/

namespace Available

/-- A way leads to a place, and no more is available there than is listed. -/
def AtMost (a : Available) (xs : List Nat) : Prop := ∃ ys, a = some ys ∧ ys ⊆ xs

variable {a b : Available} {xs : List Nat}

theorem AtMost.meet_left (h : a.AtMost xs) (b : Available) : (a.meet b).AtMost xs := by
  obtain ⟨ys, rfl, hys⟩ := h
  cases b with
  | none => exact ⟨ys, rfl, hys⟩
  | some zs => exact ⟨_, rfl, fun y hy => hys (List.mem_filter.mp hy).1⟩

theorem AtMost.meet_right (a : Available) (h : b.AtMost xs) : (a.meet b).AtMost xs := by
  obtain ⟨ys, rfl, hys⟩ := h
  cases a with
  | none => exact ⟨ys, rfl, hys⟩
  | some zs =>
      refine ⟨_, rfl, fun y hy => hys ?_⟩
      simpa using (List.mem_filter.mp hy).2

/-- What several ways bring is no more than what one of them brings. -/
theorem atMost_foldl {α : Type} {g : α → Available} {ps : List α}
    (h : a.AtMost xs ∨ ∃ p ∈ ps, (g p).AtMost xs) :
    (ps.foldl (fun a p => a.meet (g p)) a).AtMost xs := by
  induction ps generalizing a with
  | nil =>
      rcases h with h | ⟨p, hp, -⟩
      · exact h
      · cases hp
  | cons q ps ih =>
      refine ih ?_
      rcases h with h | ⟨p, hp, h⟩
      · exact .inl (h.meet_left _)
      · rcases List.mem_cons.mp hp with rfl | hp
        · exact .inl (h.meet_right a)
        · exact .inr ⟨p, hp, h⟩

theorem atMost_of_within (h : a.within b = true) (hb : b.AtMost xs) : a.AtMost xs := by
  obtain ⟨ys, rfl, hys⟩ := hb
  cases a with
  | none => cases h
  | some zs =>
      refine ⟨zs, rfl, fun z hz => hys ?_⟩
      simpa using List.all_eq_true.mp h z hz

end Available

/-! ## Ways between blocks -/

namespace Function

variable {f : Function} {heads : List Available} {b t k : Nat} {ids : List Nat} {i : Instr}

theorem mem_predecessors (hi : i ∈ f.instrs b) (ht : t ∈ i.op.targets) : b ∈ f.predecessors t := by
  obtain ⟨block, hb, hi⟩ := mem_instrs hi
  obtain ⟨hlt, -⟩ := Array.getElem?_eq_some_iff.mp hb
  refine List.mem_flatMap.mpr ⟨b, List.mem_range.mpr hlt, List.mem_filterMap.mpr ⟨t, ?_, by simp⟩⟩
  rw [hb]
  exact List.mem_flatMap.mpr ⟨i, hi, ht⟩

theorem availableAtEnd_of_head (h : heads.getD b none = some ids) :
    f.availableAtEnd heads b = some (ids ++ (f.instrs b).map Instr.id) := by
  rw [availableAtEnd, h, instrs]
  cases f.blocks[b]? <;> rfl

/-- A way out of a block that is reached brings all that is listed where it leads. -/
theorem atMost_of_target (h : f.availableHolds heads = true) (hb : heads.getD b none = some ids)
    (hi : i ∈ f.instrs b) (ht : t ∈ i.op.targets) (hlt : t < f.blocks.size) :
    (heads.getD t none).AtMost (ids ++ (f.instrs b).map Instr.id) := by
  have hwithin := List.all_eq_true.mp h t (List.mem_range.mpr hlt)
  refine Available.atMost_of_within hwithin (Available.atMost_foldl (.inr ?_))
  exact ⟨b, mem_predecessors hi ht, _, availableAtEnd_of_head hb, List.Subset.refl _⟩

/-- Nothing is listed at the head of the first block, if control never goes back to it. -/
theorem head_first (h : f.availableHolds heads = true) (hp : (f.predecessors 0).isEmpty = true)
    (hlt : 0 < f.blocks.size) : heads.getD 0 none = some [] := by
  have hwithin := List.all_eq_true.mp h 0 (List.mem_range.mpr hlt)
  have hbrought : f.brought heads 0 = some [] := by
    rw [brought, List.isEmpty_iff.mp hp]
    rfl
  rw [hbrought] at hwithin
  obtain ⟨ys, hys, hsub⟩ := Available.atMost_of_within hwithin ⟨[], rfl, List.Subset.refl _⟩
  rw [hys, List.subset_nil.mp hsub]

/-! ## Uses -/

/-- An operand is used only after what is listed at the head and what comes before it. -/
theorem canUse_of_usesHold {a : Available} {is : List Instr} (h : f.usesHold a is = true)
    (hi : is[k]? = some i) {o : Operand} (ho : o ∈ i.op.operands) :
    f.canUse (a.extend ((is.take k).map Instr.id)) o = true := by
  induction is generalizing a k with
  | nil => cases hi
  | cons j rest ih =>
      obtain ⟨huses, hrest⟩ := Bool.and_eq_true_iff.mp h
      cases k with
      | zero =>
          cases hi
          have ha : a.extend (((i :: rest).take 0).map Instr.id) = a := by
            cases a <;> simp [Available.extend]
          rw [ha]
          exact List.all_eq_true.mp huses o ho
      | succ k =>
          have ha : a.extend (((j :: rest).take (k + 1)).map Instr.id) =
              (a.extend [j.id]).extend ((rest.take k).map Instr.id) := by
            cases a <;> simp [Available.extend]
          rw [ha]
          exact ih hrest hi

/-- A number is that of a value: something that is not of the type of nothing. -/
def IsValue (f : Function) (id : Nat) : Prop := ∃ l, f.locals[id]? = some l ∧ l.type ≠ .void

end Function

/-- An operand can be used where the values of a list are available. -/
def Operand.IsUsable (f : Function) (xs : List Nat) : Operand → Prop
  | .local id _ => f.IsValue id ∧ (id < f.params.length ∨ id ∈ xs)
  | _ => True

/-- A function whose control flow the verifier has nothing against.  Blocks end at their end and
only there, and the end gives no value; phis lead their blocks, and everything is used only where
it is available. -/
structure Function.IsOrdered (f : Function) : Prop where
  first : 0 < f.blocks.size → f.available.getD 0 none = some []
  target : ∀ b ids i t, f.available.getD b none = some ids → i ∈ f.instrs b → t ∈ i.op.targets →
    t < f.blocks.size ∧ (f.available.getD t none).AtMost (ids ++ (f.instrs b).map Instr.id)
  uses : ∀ (b : Nat) ids (k : Nat) i, f.available.getD b none = some ids →
    (f.instrs b)[k]? = some i → ∀ o ∈ i.op.operands,
    o.IsUsable f (ids ++ ((f.instrs b).take k).map Instr.id)
  entries : ∀ b ids i t, f.available.getD b none = some ids → i ∈ f.instrs b →
    t ∈ i.op.targets → ∀ j ∈ f.leadingPhis t, ∃ o,
    Machine.entryFor (Machine.incomingOf j) (some b) = some o ∧
      o.IsUsable f (ids ++ (f.instrs b).map Instr.id)
  ends : ∀ b, b < f.blocks.size → ∃ before last, f.instrs b = before ++ [last] ∧
    last.op.isTerminator = true ∧ ∀ i ∈ before, i.op.isTerminator = false
  leads : ∀ (b k : Nat) i, (f.leadingPhis b).length ≤ k → (f.instrs b)[k]? = some i →
    i.op.isPhi = false
  quiet : ∀ b, ∀ i ∈ f.instrs b, i.op.isTerminator = true → ¬f.IsValue i.id

/-! ## From the verdict -/

/-- Every operand of an instruction that can be read can be read at some type. -/
theorem Instr.readsAt_of_reads {types : TypeTable} {m : Module} {f : Function} {i : Instr}
    (h : i.reads types m f = true) {o : Operand} (ho : o ∈ i.op.operands) :
    ∃ t, o.readsAt types m f t = true := by
  have call_reads {callee : Operand} {args : List Operand}
      (hc : callReads types m f callee args = true) (ho : o ∈ callee :: args) :
      ∃ t, o.readsAt types m f t = true := by
    unfold callReads at hc
    split at hc
    · simp only [Bool.and_eq_true, List.all_eq_true] at hc
      rcases List.mem_cons.mp ho with rfl | ho
      · exact ⟨_, hc.2⟩
      · exact ⟨_, (hc.1.1.1 o ho).1⟩
    · cases hc
  obtain ⟨id, u, op⟩ := i
  cases op with
  | call callee args => exact call_reads h ho
  | invoke callee args n u =>
      simp only [reads, Bool.and_eq_true] at h
      exact call_reads h.1.1 ho
  | alloca t n => cases n <;> grind [reads, OpOver.operands, Operand.reads]
  | ret v => cases v <;> grind [reads, OpOver.operands, Operand.reads]
  | switch v d cs =>
      simp only [reads, Bool.and_eq_true, List.all_eq_true] at h
      rcases List.mem_cons.mp ho with rfl | ho
      · exact ⟨_, h.1.1.1.1⟩
      · obtain ⟨c, hc, rfl⟩ := List.mem_map.mp ho
        exact ⟨_, (h.1.2 c hc).1⟩
  | address p is =>
      simp only [reads, Bool.and_eq_true, List.all_eq_true] at h
      rcases List.mem_cons.mp ho with rfl | ho
      · exact ⟨_, h.1.1⟩
      · exact ⟨_, h.1.2 o ho⟩
  | phi | br | unreachable | fence | comment => cases ho
  | _ =>
      simp only [OpOver.operands, List.mem_cons, List.not_mem_nil, or_false] at ho
      simp only [reads, Operand.reads, Bool.and_eq_true] at h
      grind

/-- An operand that can be read is no instruction that gives nothing. -/
theorem Function.isValue_of_readsAt {types : TypeTable} {m : Module} {f : Function} {id : Nat}
    {u t : Ty} (hb : f.IsBuilt m) (hf : f.reads types m = true)
    (h : (Operand.local id u).readsAt types m f t = true) : f.IsValue id := by
  have hdefined : (f.definedType? id).any t.agrees = true := (Bool.and_eq_true_iff.mp h).2
  unfold definedType? at hdefined
  split at hdefined
  · rename_i v hv
    obtain ⟨l, hl, rfl⟩ := hb.params id v hv
    refine ⟨l, hl, ?_⟩
    simp only [reads, Function.type, Ty.isWellFormed, Bool.and_eq_true, List.all_eq_true] at hf
    have hparam := hf.1.1.1.1.2 l.type (List.mem_of_getElem? hv)
    rintro hvoid
    rw [hvoid] at hparam
    cases hparam
  · cases hi : f.blocks.toList.findSome? fun b => b.instrs.find? fun i => i.id == id with
    | none => rw [hi] at hdefined; cases hdefined
    | some i =>
        obtain ⟨block, hblock, hfind⟩ := List.exists_of_findSome?_eq_some hi
        have hid : i.id = id := by simpa using List.find?_some hfind
        obtain ⟨b, hb'⟩ := List.getElem?_of_mem hblock
        have hblocn : f.blocks[b]? = some block := by simpa using hb'
        obtain ⟨l, hl, hlt⟩ := (hb.instrs b i
          (instrs_of_block hblocn ▸ List.mem_of_find?_eq_some hfind)).bound
        refine ⟨l, hid ▸ hl, fun hvoid => ?_⟩
        simp [hi, ← hlt, hvoid] at hdefined

/-- An operand that can be read, and is available, can be used. -/
theorem Operand.isUsable_of_canUse {types : TypeTable} {m : Module} {f : Function} {o : Operand}
    {xs : List Nat} {t : Ty} (hb : f.IsBuilt m) (hf : f.reads types m = true)
    (h : o.readsAt types m f t = true) (huse : f.canUse (some xs) o = true) :
    o.IsUsable f xs := by
  cases o with
  | «local» id u =>
      refine ⟨Function.isValue_of_readsAt hb hf h, ?_⟩
      simpa [Function.canUse, Available.has] using huse
  | _ => trivial

/-- Control that can be read goes to a block of the function. -/
theorem Instr.target_lt_of_reads {types : TypeTable} {m : Module} {f : Function} {i : Instr}
    (h : i.reads types m f = true) {t : Nat} (ht : t ∈ i.op.targets) : t < f.blocks.size := by
  obtain ⟨id, u, op⟩ := i
  cases op with
  | br | condBr | indirectBr | invoke =>
      simp only [OpOver.targets, List.mem_cons, List.not_mem_nil, or_false] at ht
      simp only [reads, Bool.and_eq_true, decide_eq_true_eq, List.all_eq_true] at h
      grind
  | switch v d cs =>
      simp only [reads, Bool.and_eq_true, decide_eq_true_eq, List.all_eq_true] at h
      rcases List.mem_cons.mp ht with rfl | ht
      · exact h.1.1.2
      · obtain ⟨c, hc, rfl⟩ := List.mem_map.mp ht
        exact (h.1.2 c hc).2
  | _ => cases ht

/-- The end of a block gives nothing. -/
theorem Instr.type_eq_void {m : Module} {f : Function} {i : Instr} (hb : i.IsBuilt m f)
    (hv : i.isVerified m = true) (ht : i.op.isTerminator = true) : i.type = .void := by
  obtain ⟨types, asked, htype⟩ := hb.asked
  obtain ⟨id, t, op⟩ := i
  dsimp only at htype ht ⊢
  cases op with
  | invoke => simp [isVerified] at hv
  | br | condBr | switch | ret | unreachable | indirectBr => cases htype; rfl
  | _ => cases ht

/-- A phi that has an entry for each way into its block has one for each block that leads there. -/
theorem Machine.entryFor_of_sameCounts {entries : List (Operand × Nat)} {ps : List Nat} {b : Nat}
    (h : sameCounts (entries.map Prod.snd) ps = true) (hb : b ∈ ps) :
    ∃ o, entryFor entries (some b) = some o ∧ (o, b) ∈ entries := by
  have hcount : (entries.map Prod.snd).count b = ps.count b := by
    simpa using List.all_eq_true.mp h b (List.mem_append_right _ hb)
  have hmem : b ∈ entries.map Prod.snd := by
    rw [← List.count_pos_iff, hcount]
    exact List.count_pos_iff.mpr hb
  obtain ⟨e, he, rfl⟩ := List.mem_map.mp hmem
  cases hfind : entries.find? fun e' => some e'.2 == some e.2 with
  | none => exact absurd (List.find?_eq_none.mp hfind e he) (by simp)
  | some e' =>
      have heq : e'.2 = e.2 := by simpa using List.find?_some hfind
      refine ⟨e'.1, by rw [entryFor, hfind]; rfl, ?_⟩
      rw [← heq]
      exact List.mem_of_find?_eq_some hfind

namespace Module.Accepted

variable {types : TypeTable} {m : Module} {n : Nat} {f : Function}

theorem proper_eq_instrs {b : Nat} {block : Block}
    (hremarks : ∀ b, ∀ i ∈ f.instrs b, i.op.isComment = false)
    (hblock : f.blocks[b]? = some block) : block.proper = f.instrs b := by
  rw [Function.instrs_of_block hblock, Block.proper, List.filter_eq_self]
  intro i hi
  simp [hremarks b i (Function.instrs_of_block hblock ▸ hi)]

/-- Control flow in a function of a module that was judged, if there are no remarks. -/
theorem isOrdered (h : m.Accepted types) (hb : m.IsBuilt) (hf : m.function? n = some f)
    (hremarks : ∀ b, ∀ i ∈ f.instrs b, i.op.isComment = false) : f.IsOrdered where
  first hlt := by
    have hver := h.function_verified hf
    simp only [Function.isVerified, Bool.and_eq_true] at hver
    exact Function.head_first hver.1.2 hver.1.1.2 hlt
  target b ids i t hhead hi ht := by
    have hver := h.function_verified hf
    simp only [Function.isVerified, Bool.and_eq_true] at hver
    have hlt := Instr.target_lt_of_reads (h.instr_reads hf hi) ht
    exact ⟨hlt, Function.atMost_of_target hver.1.2 hhead hi ht hlt⟩
  uses b ids k i hhead hi o ho := by
    have hmem := List.mem_of_getElem? hi
    obtain ⟨block, hblock, -⟩ := Function.mem_instrs hmem
    have hver := h.block_verified hf hblock
    simp only [Function.blockIsVerified, Bool.and_eq_true] at hver
    rw [← Function.instrs_of_block hblock] at hver
    obtain ⟨t, ht⟩ := Instr.readsAt_of_reads (h.instr_reads hf hmem) ho
    have huse := Function.canUse_of_usesHold hver.1.2 hi ho
    rw [hhead] at huse
    exact Operand.isUsable_of_canUse (hb n f hf) (h.function_reads hf) ht huse
  entries b ids i t hhead hi ht j hj := by
    have hmem : j ∈ f.instrs t := (List.takeWhile_sublist _).subset hj
    have hphi : j.op.isPhi = true := List.all_eq_true.mp List.all_takeWhile j hj
    obtain ⟨block, hblock, hj⟩ := Function.mem_instrs hmem
    have hver := h.block_verified hf hblock
    simp only [Function.blockIsVerified, Bool.and_eq_true, List.all_eq_true] at hver
    have hread := h.instr_reads hf hmem
    have hmatch := hver.1.1.1.2 j hj
    have hhold := List.all_eq_true.mp hver.2 j hj
    cases hop : j.op with
    | phi incoming =>
        simp only [Function.phiMatches, Function.entriesOf, hop, OpOver.isPhi, Bool.not_true,
          Bool.false_or, Bool.and_eq_true] at hmatch
        obtain ⟨o, ho, hmemo⟩ :=
          Machine.entryFor_of_sameCounts hmatch.1 (Function.mem_predecessors hi ht)
        refine ⟨o, by simpa [Machine.incomingOf, hop] using ho, ?_⟩
        rw [Function.entriesOf, hop] at hhold
        have huse := List.all_eq_true.mp hhold (o, b) hmemo
        dsimp only at huse
        rw [Function.availableAtEnd_of_head hhead] at huse
        simp only [Instr.reads, hop, Bool.and_eq_true, List.all_eq_true] at hread
        exact Operand.isUsable_of_canUse (hb n f hf) (h.function_reads hf)
          (hread.2 (o, b) hmemo).2 huse
    | _ => rw [hop] at hphi; cases hphi
  ends b hlt := by
    have hblock : f.blocks[b]? = some f.blocks[b] := Array.getElem?_eq_getElem hlt
    have hread := h.block_reads hf hblock
    simp only [Block.reads, Bool.and_eq_true] at hread
    have hends := hread.1.1.1
    rw [Block.endsProperly, proper_eq_instrs hremarks hblock] at hends
    split at hends
    · cases hends
    · rename_i last before hrev
      obtain ⟨hlast, hbefore⟩ := Bool.and_eq_true_iff.mp hends
      refine ⟨before.reverse, last, ?_, hlast, fun i hi => ?_⟩
      · simpa using congrArg List.reverse hrev
      · simpa using List.all_eq_true.mp hbefore i (List.mem_reverse.mp hi)
  leads b k i hk hi := by
    obtain ⟨block, hblock, -⟩ := Function.mem_instrs (List.mem_of_getElem? hi)
    have hver := h.block_verified hf hblock
    simp only [Function.blockIsVerified, Bool.and_eq_true] at hver
    have hlead := hver.1.1.1.1
    rw [phisLead, proper_eq_instrs hremarks hblock] at hlead
    have hmem : i ∈ (f.instrs b).dropWhile (·.op.isPhi) := by
      have hsplit : f.leadingPhis b ++ (f.instrs b).dropWhile (·.op.isPhi) = f.instrs b :=
        List.takeWhile_append_dropWhile
      rw [← hsplit, List.getElem?_append_right hk] at hi
      exact List.mem_of_getElem? hi
    simpa using List.all_eq_true.mp hlead i hmem
  quiet b i hi ht := by
    have hbuilt := (hb n f hf).instrs b i hi
    obtain ⟨l, hl, hlt⟩ := hbuilt.bound
    rintro ⟨l', hl', hne⟩
    rw [hl] at hl'
    cases hl'
    exact hne (hlt.trans (Instr.type_eq_void hbuilt (h.instr_verified hf hi) ht))

end Module.Accepted

end Ssa

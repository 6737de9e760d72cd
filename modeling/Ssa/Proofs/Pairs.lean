/-
# `Ssa.Proofs.Pairs` — two runs side by side

To say that two runs cannot be told apart, they are taken step by step side by side.  What holds of the
two states may depend on what has happened so far, so it is said at a stage, and stages go onward.  Two
steps are paired at a stage if they lead to a further stage at which the states are related again, and
come to values that are related there, or to the same failure.  As for single steps, there is one lemma
for each way in which steps are put together.

Often one step is taken on both sides, and comes to the very same: it is blind to what the two states
differ in.
-/
import Ssa.Proofs.Effect

namespace Ssa

/-- Two outcomes are values that are related, or the same failure. -/
inductive Agree {ε α β : Type} (Q : α → β → Prop) : Except ε α → Except ε β → Prop
  | ok {a : α} {b : β} : Q a b → Agree Q (.ok a) (.ok b)
  | error (e : ε) : Agree Q (.error e) (.error e)

namespace Agree

variable {ε α β γ δ : Type} {Q Q' : α → β → Prop} {P : γ → δ → Prop} {x : Except ε α} {y : Except ε β}

theorem mono (h : Agree Q x y) (hQ : ∀ a b, Q a b → Q' a b) : Agree Q' x y := by
  cases h with
  | ok h => exact .ok (hQ _ _ h)
  | error e => exact .error e

theorem of_eq {x y : Except ε α} (h : x = y) : Agree Eq x y := by
  subst h
  cases x with
  | ok a => exact .ok rfl
  | error e => exact .error e

theorem eq {x y : Except ε α} (h : Agree Eq x y) : x = y := by
  cases h with
  | ok h => rw [h]
  | error e => rfl

theorem map {f : α → γ} {g : β → δ} (h : Agree Q x y) (hP : ∀ a b, Q a b → P (f a) (g b)) :
    Agree P (x.map f) (y.map g) := by
  cases h with
  | ok h => exact .ok (hP _ _ h)
  | error e => exact .error e

theorem bind {f : α → Except ε γ} {g : β → Except ε δ} (h : Agree Q x y)
    (hP : ∀ a b, Q a b → Agree P (f a) (g b)) : Agree P (x >>= f) (y >>= g) := by
  cases h with
  | ok h => exact hP _ _ h
  | error e => exact .error e

/-- The values that two outcomes come to are known to be theirs. -/
theorem known (h : Agree Q x y) : Agree (fun a b => Q a b ∧ x = .ok a ∧ y = .ok b) x y := by
  cases h with
  | ok h => exact .ok ⟨h, rfl, rfl⟩
  | error e => exact .error e

/-- Two outcomes that agree with a third. -/
theorem both {z : Except ε γ} {P : α → γ → Prop} (h : Agree Q x y) (h' : Agree P x z) :
    Agree (fun b c => ∃ a, Q a b ∧ P a c) y z := by
  cases h with
  | ok h =>
      cases h' with
      | ok h' => exact .ok ⟨_, h, h'⟩
  | error e =>
      cases h'
      exact .error e

end Agree

/-- What is to hold of two states, at each of the stages, which go onward. -/
structure Pairing (σ τ : Type) where
  Stage : Type
  holds : Stage → σ → τ → Prop
  onward : Stage → Stage → Prop
  refl : ∀ w, onward w w
  trans : ∀ {w w' w''}, onward w w' → onward w' w'' → onward w w''

/-- Two steps on two states lead onward to states that are paired, and to outcomes that agree. -/
def Effect.Paired {ε σ τ α β : Type} (K : Pairing σ τ) (w : K.Stage) (x : ExceptT ε (StateM σ) α)
    (s : σ) (y : ExceptT ε (StateM τ) β) (t : τ) (Q : K.Stage → α → β → Prop) : Prop :=
  ∃ w', K.onward w w' ∧ K.holds w' (x.on s).2 (y.on t).2 ∧ Agree (Q w') (x.on s).1 (y.on t).1

namespace Effect.Paired

variable {ε σ τ α β γ δ : Type} {K : Pairing σ τ} {w : K.Stage} {s : σ} {t : τ}
  {P : K.Stage → α → β → Prop} {Q : K.Stage → γ → δ → Prop}

theorem pure {a : α} {b : β} (h : K.holds w s t) (hP : P w a b) :
    Paired K w (Pure.pure a : ExceptT ε (StateM σ) α) s (Pure.pure b) t P :=
  ⟨w, K.refl w, h, .ok hP⟩

theorem throw (h : K.holds w s t) (e : ε) :
    Paired K w (MonadExcept.throw e : ExceptT ε (StateM σ) α) s
      (MonadExcept.throw e : ExceptT ε (StateM τ) β) t P :=
  ⟨w, K.refl w, h, .error e⟩

theorem of_on {x : ExceptT ε (StateM σ) α} {y : ExceptT ε (StateM τ) β} {u : Except ε α} {v : Except ε β}
    {s' : σ} {t' : τ} (hx : x.on s = (u, s')) (hy : y.on t = (v, t')) (h : K.holds w s' t')
    (hagree : Agree (P w) u v) : Paired K w x s y t P := by
  refine ⟨w, K.refl w, ?_, ?_⟩
  · rw [hx, hy]
    exact h
  · rw [hx, hy]
    exact hagree

/-- Steps that come to the same as others are paired as they are. -/
theorem of_on_eq {x x' : ExceptT ε (StateM σ) α} {y y' : ExceptT ε (StateM τ) β} {s' : σ} {t' : τ}
    (hx : x.on s = x'.on s') (hy : y.on t = y'.on t') (h : Paired K w x' s' y' t' P) :
    Paired K w x s y t P := by
  rw [Paired, hx, hy]
  exact h

/-- What fails on the one side fails on the other. -/
theorem of_error {x : ExceptT ε (StateM σ) α} {y : ExceptT ε (StateM τ) β} {e : ε} {s' : σ}
    (h : Paired K w x s y t P) (hx : x.on s = (.error e, s')) : Paired K w x s y t fun _ _ _ => False := by
  obtain ⟨w', hw, hst, hagree⟩ := h
  refine ⟨w', hw, hst, ?_⟩
  rw [hx] at hagree ⊢
  generalize (y.on t).1 = v at hagree ⊢
  cases hagree
  exact .error e

/-- What two steps come to is related. -/
theorem of_ok {x : ExceptT ε (StateM σ) α} {y : ExceptT ε (StateM τ) β} {a : α} {b : β} {s' : σ} {t' : τ}
    (h : Paired K w x s y t P) (hx : x.on s = (.ok a, s')) (hy : y.on t = (.ok b, t')) :
    ∃ w', K.onward w w' ∧ K.holds w' s' t' ∧ P w' a b := by
  obtain ⟨w', hw, hst, hagree⟩ := h
  rw [hx, hy] at hst hagree
  cases hagree with
  | ok hab => exact ⟨w', hw, hst, hab⟩

theorem mono {P' : K.Stage → α → β → Prop} {x : ExceptT ε (StateM σ) α} {y : ExceptT ε (StateM τ) β}
    (h : Paired K w x s y t P) (hP : ∀ w' a b, K.onward w w' → P w' a b → P' w' a b) :
    Paired K w x s y t P' := by
  obtain ⟨w', hw, hst, hagree⟩ := h
  exact ⟨w', hw, hst, hagree.mono fun a b => hP w' a b hw⟩

/-- One step after another on both sides, which know what those before them came to. -/
theorem bindOn {x : ExceptT ε (StateM σ) α} {y : ExceptT ε (StateM τ) β}
    {f : α → ExceptT ε (StateM σ) γ} {g : β → ExceptT ε (StateM τ) δ} (h : Paired K w x s y t P)
    (hfg : ∀ w' a b s' t', x.on s = (.ok a, s') → y.on t = (.ok b, t') → K.onward w w' →
      K.holds w' s' t' → P w' a b → Paired K w' (f a) s' (g b) t' Q) :
    Paired K w (x >>= f) s (y >>= g) t Q := by
  obtain ⟨w', hw, hst, hagree⟩ := h
  rcases hx : x.on s with ⟨u, s'⟩
  rcases hy : y.on t with ⟨v, t'⟩
  rw [hx, hy] at hst hagree
  cases hagree with
  | error e =>
      refine ⟨w', hw, ?_, ?_⟩
      · rw [on_bind_of_error hx, on_bind_of_error hy]
        exact hst
      · rw [on_bind_of_error hx, on_bind_of_error hy]
        exact .error e
  | ok hab =>
      obtain ⟨w'', hw', hst', hagree⟩ := hfg w' _ _ s' t' hx hy hw hst hab
      refine ⟨w'', K.trans hw hw', ?_, ?_⟩
      · rw [on_bind_of_ok hx, on_bind_of_ok hy]
        exact hst'
      · rw [on_bind_of_ok hx, on_bind_of_ok hy]
        exact hagree

/-- One step after another on both sides. -/
theorem bind {x : ExceptT ε (StateM σ) α} {y : ExceptT ε (StateM τ) β}
    {f : α → ExceptT ε (StateM σ) γ} {g : β → ExceptT ε (StateM τ) δ} (h : Paired K w x s y t P)
    (hfg : ∀ w' a b s' t', K.onward w w' → K.holds w' s' t' → P w' a b →
      Paired K w' (f a) s' (g b) t' Q) : Paired K w (x >>= f) s (y >>= g) t Q :=
  h.bindOn fun w' a b s' t' _ _ => hfg w' a b s' t'

/-- After a failure nothing more is done. -/
theorem stop {x : ExceptT ε (StateM σ) α} {y : ExceptT ε (StateM τ) β}
    {f : α → ExceptT ε (StateM σ) γ} {g : β → ExceptT ε (StateM τ) δ}
    (h : Paired K w x s y t fun _ _ _ => False) : Paired K w (x >>= f) s (y >>= g) t Q :=
  .bind h fun _ _ _ _ _ _ _ hno => hno.elim

/-- Two steps that go by the states they start from. -/
theorem get {f : σ → ExceptT ε (StateM σ) γ} {g : τ → ExceptT ε (StateM τ) δ}
    (h : Paired K w (f s) s (g t) t Q) :
    Paired K w (MonadState.get >>= f) s (MonadState.get >>= g) t Q :=
  .of_on_eq (on_bind_of_ok (on_get s)) (on_bind_of_ok (on_get t)) h

theorem discard {x : ExceptT ε (StateM σ) α} {y : ExceptT ε (StateM τ) β} (h : Paired K w x s y t P) :
    Paired K w (Functor.discard x) s (Functor.discard y) t fun _ _ _ => True :=
  .bind h fun _ _ _ _ _ _ hst _ => .pure hst trivial

/-- Steps whose failures are seen to by others. -/
theorem tryCatch {x : ExceptT ε (StateM σ) α} {y : ExceptT ε (StateM τ) β}
    {handle : ε → ExceptT ε (StateM σ) α} {handle' : ε → ExceptT ε (StateM τ) β}
    (h : Paired K w x s y t P)
    (hh : ∀ w' e s' t', K.onward w w' → K.holds w' s' t' →
      Paired K w' (handle e) s' (handle' e) t' P) :
    Paired K w (MonadExcept.tryCatch x handle) s (MonadExcept.tryCatch y handle') t P := by
  obtain ⟨w', hw, hst, hagree⟩ := h
  rcases hx : x.on s with ⟨u, s'⟩
  rcases hy : y.on t with ⟨v, t'⟩
  rw [hx, hy] at hst hagree
  have hxs := on_tryCatch x handle s
  have hyt := on_tryCatch y handle' t
  rw [hx] at hxs
  rw [hy] at hyt
  cases hagree with
  | ok hab => exact ⟨w', hw, by rw [hxs, hyt]; exact hst, by rw [hxs, hyt]; exact .ok hab⟩
  | error e =>
      obtain ⟨w'', hw', hst', hagree⟩ := hh w' e s' t' hw hst
      exact ⟨w'', K.trans hw hw', by rw [hxs, hyt]; exact hst', by rw [hxs, hyt]; exact hagree⟩

/-! ## Lists -/

variable {R : K.Stage → α → β → Prop} {as : List α} {bs : List β}

/-- One step for each of two lists that are related: what the steps give stays related while the others
are done. -/
theorem mapM {F : α → ExceptT ε (StateM σ) γ} {G : β → ExceptT ε (StateM τ) δ}
    (hR : ∀ w w' a b, K.onward w w' → R w a b → R w' a b)
    (hQ : ∀ w w' c d, K.onward w w' → Q w c d → Q w' c d) (h : K.holds w s t)
    (has : List.Forall₂ (R w) as bs)
    (hFG : ∀ w' a b s' t', K.onward w w' → K.holds w' s' t' → R w' a b →
      Paired K w' (F a) s' (G b) t' Q) :
    Paired K w (as.mapM F) s (bs.mapM G) t fun w' cs ds => List.Forall₂ (Q w') cs ds := by
  induction as generalizing bs w s t with
  | nil =>
      cases has
      exact .pure h .nil
  | cons a as ih =>
      cases has with
      | @cons _ b _ bs hab has =>
          rw [List.mapM_cons, List.mapM_cons]
          refine .bind (hFG w a b s t (K.refl w) h hab) fun w₁ c d s₁ t₁ hw₁ h₁ hcd => ?_
          have hrest := ih h₁ (has.imp fun a b => hR w w₁ a b hw₁)
            fun w' a b s' t' hw' => hFG w' a b s' t' (K.trans hw₁ hw')
          refine .bind hrest fun w₂ cs ds s₂ t₂ hw₂ h₂ hcds => ?_
          exact .pure h₂ (.cons (hQ w₁ w₂ c d hw₂ hcd) hcds)

/-- Loops over two lists that are related, which are never left early: what a round gives is known of
each in the end. -/
theorem loop {S : α → β → Prop} {T : α → Prop} {F : α → PUnit → ExceptT ε (StateM σ) (ForInStep PUnit)}
    {G : β → PUnit → ExceptT ε (StateM τ) (ForInStep PUnit)} (h : K.holds w s t)
    (has : List.Forall₂ S as bs)
    (hFG : ∀ a b, S a b → ∀ w' s' t', K.onward w w' → K.holds w' s' t' →
      Paired K w' (F a ⟨⟩) s' (G b ⟨⟩) t' fun _ r r' => r = .yield ⟨⟩ ∧ r' = .yield ⟨⟩ ∧ T a) :
    Paired K w (forIn as PUnit.unit F) s (forIn bs PUnit.unit G) t fun _ _ _ => ∀ a ∈ as, T a := by
  induction has generalizing w s t with
  | nil => exact .pure h nofun
  | @cons a b as bs hab _ ih =>
      rw [List.forIn_cons, List.forIn_cons]
      refine .bind (hFG a b hab w s t (K.refl w) h) fun w₁ r r' s₁ t₁ hw₁ h₁ hr => ?_
      obtain ⟨rfl, rfl, ha⟩ := hr
      have hrest := ih h₁ fun a' b' hab' w' s' t' hw' =>
        hFG a' b' hab' w' s' t' (K.trans hw₁ hw')
      exact hrest.mono fun _ _ _ _ hall => List.forall_mem_cons.mpr ⟨ha, hall⟩

/-- A step for each of two lists that are related, in order. -/
theorem each {S : α → β → Prop} {T : α → Prop} {F : α → ExceptT ε (StateM σ) PUnit}
    {G : β → ExceptT ε (StateM τ) PUnit} (h : K.holds w s t) (has : List.Forall₂ S as bs)
    (hFG : ∀ a b, S a b → ∀ w' s' t', K.onward w w' → K.holds w' s' t' →
      Paired K w' (F a) s' (G b) t' fun _ _ _ => T a) :
    Paired K w
      (forIn as PUnit.unit fun a _ => do F a; Pure.pure (ForInStep.yield PUnit.unit)) s
      (forIn bs PUnit.unit fun b _ => do G b; Pure.pure (ForInStep.yield PUnit.unit)) t
      fun _ _ _ => ∀ a ∈ as, T a :=
  .loop h has fun a b hab w' s' t' hw' h' => .bind (hFG a b hab w' s' t' hw' h')
    fun _ _ _ _ _ _ h'' ha => .pure h'' ⟨rfl, rfl, ha⟩

end Effect.Paired

/-! ## Steps that cannot tell states apart -/

/-- What is to hold of two states does not depend on what has happened. -/
def Pairing.still {σ τ : Type} (R : σ → τ → Prop) : Pairing σ τ where
  Stage := Unit
  holds _ := R
  onward _ _ := True
  refl _ := trivial
  trans _ _ := trivial

/-- One step on both sides, on one state. -/
theorem Effect.Paired.same {ε σ α β γ : Type} {x : ExceptT ε (StateM σ) α} {s : σ}
    {f : α → ExceptT ε (StateM σ) β} {g : α → ExceptT ε (StateM σ) γ} {Q : Unit → β → γ → Prop}
    (h : ∀ a s', x.on s = (.ok a, s') → Paired (.still Eq) () (f a) s' (g a) s' Q) :
    Paired (.still Eq) () (x >>= f) s (x >>= g) s Q := by
  have hx : Paired (.still Eq) () x s x s fun _ => Eq := ⟨(), trivial, rfl, .of_eq rfl⟩
  refine hx.bindOn fun _ a _ s' _ hon _ _ hs hab => ?_
  cases hs
  cases hab
  exact h a s' hon

/-- A step comes to the same on states that are related, and leaves states that are related. -/
def Effect.Blind {ε σ α : Type} (R : σ → σ → Prop) (x : ExceptT ε (StateM σ) α) : Prop :=
  ∀ s t, R s t → Paired (.still R) () x s x t fun _ => Eq

theorem Effect.Paired.of_blind {ε σ α : Type} {R : σ → σ → Prop} {x : ExceptT ε (StateM σ) α} {s t : σ}
    (h : R s t) (hx : Blind R x) : Paired (.still R) () x s x t fun _ => Eq :=
  hx s t h

namespace Effect.Blind

variable {ε σ α β γ : Type} {R : σ → σ → Prop} {s t : σ} {x : ExceptT ε (StateM σ) α}
  {f : α → ExceptT ε (StateM σ) β}

theorem outcome (h : Blind R x) (hst : R s t) : (x.on t).1 = (x.on s).1 := by
  obtain ⟨_, _, _, hagree⟩ := h s t hst
  exact hagree.eq.symm

theorem state (h : Blind R x) (hst : R s t) : R (x.on s).2 (x.on t).2 := by
  obtain ⟨_, _, hleft, _⟩ := h s t hst
  exact hleft

theorem pure (a : α) : Blind R (Pure.pure a : ExceptT ε (StateM σ) α) := fun _ _ h => .pure h rfl

theorem throw (e : ε) : Blind R (MonadExcept.throw e : ExceptT ε (StateM σ) α) :=
  fun _ _ h => .throw h e

theorem changed {change : σ → σ} (h : ∀ s t, R s t → R (change s) (change t)) :
    Blind R (modify change : ExceptT ε (StateM σ) PUnit) :=
  fun s t hst => ⟨(), trivial, h s t hst, .ok rfl⟩

theorem bind (hx : Blind R x) (hf : ∀ a, Blind R (f a)) : Blind R (x >>= f) := fun s t h =>
  .bind (hx s t h) fun _ a _ s' t' _ h' hab => hab ▸ hf a s' t' h'

/-- Steps that are refused under a condition, and taken otherwise. -/
theorem guarded {c : Prop} [Decidable c] {e : ε} {rest : PUnit → ExceptT ε (StateM σ) α}
    (h : Blind R (rest ⟨⟩)) :
    Blind R (if c then MonadExcept.throw e >>= rest else rest ⟨⟩) := by
  split
  · exact .bind (.throw (α := PUnit) e) fun _ => h
  · exact h

/-- A step that goes by the state it starts from. -/
theorem get {f : σ → ExceptT ε (StateM σ) β}
    (h : ∀ s t, R s t → Paired (.still R) () (f s) s (f t) t fun _ => Eq) :
    Blind R (MonadState.get >>= f) := fun s t hst => .get (h s t hst)

theorem discard (h : Blind R x) : Blind R (Functor.discard x) := .bind h fun _ => .pure _

theorem tryCatch {handle : ε → ExceptT ε (StateM σ) α} (h : Blind R x)
    (hh : ∀ e, Blind R (handle e)) : Blind R (MonadExcept.tryCatch x handle) := fun s t hst =>
  .tryCatch (h s t hst) fun _ e s' t' _ => hh e s' t'

theorem mapM {F : α → ExceptT ε (StateM σ) β} (h : ∀ a, Blind R (F a)) (as : List α) :
    Blind R (as.mapM F) := by
  induction as with
  | nil => exact .pure _
  | cons a as ih =>
      rw [List.mapM_cons]
      exact .bind (h a) fun _ => .bind ih fun _ => .pure _

theorem foldlM {F : β → α → ExceptT ε (StateM σ) β} (h : ∀ b a, Blind R (F b a)) (as : List α) (b : β) :
    Blind R (as.foldlM F b) := by
  induction as generalizing b with
  | nil => exact .pure _
  | cons a as ih =>
      rw [List.foldlM_cons]
      exact .bind (h b a) ih

theorem loop {F : α → PUnit → ExceptT ε (StateM σ) (ForInStep PUnit)} (h : ∀ a, Blind R (F a ⟨⟩))
    (as : List α) : Blind R (forIn as PUnit.unit F) := by
  induction as with
  | nil => exact .pure _
  | cons a as ih =>
      rw [List.forIn_cons]
      refine .bind (h a) fun r => ?_
      cases r with
      | done b => exact .pure _
      | yield b => exact ih

theorem each {F : α → ExceptT ε (StateM σ) PUnit} (h : ∀ a, Blind R (F a)) (as : List α) :
    Blind R (forIn as PUnit.unit fun a _ => do F a; Pure.pure (ForInStep.yield PUnit.unit)) :=
  .loop (fun a => .bind (h a) fun _ => .pure _) as

theorem forM {F : α → ExceptT ε (StateM σ) PUnit} (h : ∀ a, Blind R (F a)) (as : List α) :
    Blind R (as.forM F) := by
  induction as with
  | nil => exact .pure _
  | cons a as ih => exact .bind (h a) fun _ => ih

end Effect.Blind

end Ssa

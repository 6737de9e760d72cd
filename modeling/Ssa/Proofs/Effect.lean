/-
# `Ssa.Proofs.Effect` — steps that may fail, on a state

Runs, the builder, sessions and scripts are all put together from steps that may fail and that
change a state, also when they fail.  `ExceptT.on` says what a step comes to on a state, and a step
meets a condition if it keeps what is to be kept, whether it fails or not.  The lemmas say so for
each way in which steps are put together, so that no later proof opens the monad.
-/
import Mathlib.Data.List.Forall2
import Ssa.Failure.Basic

/-- The outcome of a step on a state, and the state that it leaves. -/
def ExceptT.on {ε σ α : Type} (x : ExceptT ε (StateM σ) α) (s : σ) : Except ε α × σ := x.run.run s

namespace Ssa

/-! ## Outcomes -/

theorem ok_of_map {ε α β : Type} {x : Except ε α} {f : α → β} {b : β}
    (h : x.map f = .ok b) : ∃ a, x = .ok a ∧ f a = b := by
  cases x with
  | error e => cases h
  | ok a => cases h; exact ⟨a, rfl, rfl⟩

theorem ok_of_bind {ε α β : Type} {x : Except ε α} {f : α → Except ε β} {b : β}
    (h : (x >>= f) = .ok b) : ∃ a, x = .ok a ∧ f a = .ok b := by
  cases x with
  | error e => cases h
  | ok a => exact ⟨a, rfl, h⟩

/-- What failed after another: either the first failed, or the second was reached. -/
theorem error_of_bind {ε α β : Type} {x : Except ε α} {f : α → Except ε β} {e : ε}
    (h : (x >>= f) = .error e) : x = .error e ∨ ∃ a, x = .ok a ∧ f a = .error e := by
  cases x with
  | error e' => cases h; exact .inl rfl
  | ok a => exact .inr ⟨a, rfl, h⟩

/-- If a step for each of a list succeeds, then each of the steps does. -/
theorem ok_of_mapM {ε α β : Type} {F : α → Except ε β} {as : List α} {bs : List β}
    (h : as.mapM F = .ok bs) : ∀ a ∈ as, ∃ b, F a = .ok b := by
  induction as generalizing bs with
  | nil => exact nofun
  | cons a as ih =>
      rw [List.mapM_cons] at h
      obtain ⟨b, hb, h⟩ := ok_of_bind h
      obtain ⟨bs', hbs, -⟩ := ok_of_bind h
      intro a' ha'
      rcases List.mem_cons.mp ha' with rfl | ha'
      · exact ⟨b, hb⟩
      · exact ih hbs a' ha'

/-- What an outcome failed with. -/
def Effect.failure? {ε α : Type} : Except ε α → Option ε
  | .error e => some e
  | .ok _ => none

theorem Effect.eq_error_of_failure? {ε α : Type} {x : Except ε α} {e : ε}
    (h : failure? x = some e) : x = .error e := by
  cases x <;> cases h
  rfl

namespace Effect

variable {ε σ α β : Type}

/-! ## One step after another -/

theorem on_bind (x : ExceptT ε (StateM σ) α) (f : α → ExceptT ε (StateM σ) β) (s : σ) :
    (x >>= f).on s =
      match x.on s with
      | (.ok a, s₁) => (f a).on s₁
      | (.error e, s₁) => (.error e, s₁) := by
  show (do let r ← x.run; ExceptT.bindCont f r : StateM σ _).run s = _
  simp only [ExceptT.on, StateT.run_bind]
  rcases x.run.run s with ⟨_ | _, _⟩ <;> rfl

variable {x : ExceptT ε (StateM σ) α} {f : α → ExceptT ε (StateM σ) β} {s s₁ s' : σ}

theorem on_bind_of_ok {a : α} (h : x.on s = (.ok a, s₁)) : (x >>= f).on s = (f a).on s₁ := by
  rw [on_bind, h]

theorem on_bind_of_error {e : ε} (h : x.on s = (.error e, s₁)) :
    (x >>= f).on s = (.error e, s₁) := by
  rw [on_bind, h]

/-- One step after another where neither changes anything. -/
theorem on_bind_same {u : Except ε α} {g : α → Except ε β} (hx : x.on s = (u, s))
    (hf : ∀ a, u = .ok a → (f a).on s = (g a, s)) : (x >>= f).on s = (u >>= g, s) := by
  cases u with
  | error e => exact on_bind_of_error hx
  | ok a => exact (on_bind_of_ok hx).trans (hf a rfl)

/-- A step for each of a list, where all succeed and none changes anything. -/
theorem on_mapM_of_forall₂ {F : α → ExceptT ε (StateM σ) β} {as : List α} {bs : List β}
    (h : List.Forall₂ (fun a b => (F a).on s = (.ok b, s)) as bs) : (as.mapM F).on s = (.ok bs, s) := by
  induction h with
  | nil => rfl
  | cons hb _ ih =>
      rw [List.mapM_cons]
      exact (on_bind_of_ok hb).trans (on_bind_of_ok ih)

/-- What came to something after another step: either the first failed, or the second was reached. -/
theorem on_bind_cases {r : Except ε β} (h : (x >>= f).on s = (r, s')) :
    (∃ e, x.on s = (.error e, s') ∧ r = .error e) ∨
      ∃ a s₁, x.on s = (.ok a, s₁) ∧ (f a).on s₁ = (r, s') := by
  rw [on_bind] at h
  rcases hx : x.on s with ⟨e | a, s₁⟩
  · rw [hx] at h
    cases h
    exact .inl ⟨e, rfl, rfl⟩
  · rw [hx] at h
    exact .inr ⟨a, s₁, rfl, h⟩

/-- What succeeded after another step: both did. -/
theorem on_bind_ok {b : β} (h : (x >>= f).on s = (.ok b, s')) :
    ∃ a s₁, x.on s = (.ok a, s₁) ∧ (f a).on s₁ = (.ok b, s') := by
  rcases on_bind_cases h with ⟨e, -, he⟩ | hgoes
  · cases he
  · exact hgoes

/-- What a step comes to whose failures are seen to by another. -/
theorem on_tryCatch (x : ExceptT ε (StateM σ) α) (handle : ε → ExceptT ε (StateM σ) α) (s : σ) :
    (tryCatch x handle).on s =
      match x.on s with
      | (.ok a, s₁) => (.ok a, s₁)
      | (.error e, s₁) => (handle e).on s₁ := by
  show (do
    let r ← x.run
    match r with
    | .ok a => pure (.ok a)
    | .error e => handle e : StateM σ _).run s = _
  simp only [ExceptT.on, StateT.run_bind]
  rcases x.run.run s with ⟨_ | _, _⟩ <;> rfl

@[simp] theorem on_pure (a : α) (s : σ) :
    (pure a : ExceptT ε (StateM σ) α).on s = (.ok a, s) := rfl

@[simp] theorem on_throw (e : ε) (s : σ) :
    (throw e : ExceptT ε (StateM σ) α).on s = (.error e, s) := rfl

@[simp] theorem on_get (s : σ) : (get : ExceptT ε (StateM σ) σ).on s = (.ok s, s) := rfl

@[simp] theorem on_modify (change : σ → σ) (s : σ) :
    (modify change : ExceptT ε (StateM σ) PUnit).on s = (.ok ⟨⟩, change s) := rfl

@[simp] theorem on_set (s s' : σ) :
    (set s' : ExceptT ε (StateM σ) PUnit).on s = (.ok ⟨⟩, s') := rfl

end Effect

/-! ## Steps that meet a condition -/

/-- What steps are to keep: something that holds of every state, and a relation between a state and
those after it. -/
structure Keeping (σ : Type) where
  holds : σ → Prop
  grows : σ → σ → Prop
  refl : ∀ s, grows s s
  trans : ∀ {s s' s''}, grows s s' → grows s' s'' → grows s s''

/-- Nothing is to be kept. -/
def Keeping.nothing (σ : Type) : Keeping σ where
  holds _ := True
  grows _ _ := True
  refl _ := trivial
  trans _ _ := trivial

/-- A step on a state keeps what is to be kept, gives what the condition says, and fails only as
allowed. -/
structure Effect.Meets {ε σ α : Type} (K : Keeping σ) (x : ExceptT ε (StateM σ) α) (s : σ)
    (Post : σ → α → Prop) (Err : ε → Prop) : Prop where
  holds : K.holds (x.on s).2
  grows : K.grows s (x.on s).2
  ok : ∀ a s', x.on s = (.ok a, s') → Post s' a
  error : ∀ e s', x.on s = (.error e, s') → Err e

namespace Effect.Meets

variable {ε σ α β γ : Type} {K : Keeping σ} {s : σ} {Err : ε → Prop} {P : σ → α → Prop}
  {Q : σ → β → Prop}

theorem pure {a : α} (hs : K.holds s) (ha : P s a) :
    Meets K (Pure.pure a : ExceptT ε (StateM σ) α) s P Err := by
  refine ⟨hs, K.refl s, fun b s' h => ?_, fun e s' h => ?_⟩
  · cases h; exact ha
  · cases h

theorem throw {e : ε} (hs : K.holds s) (he : Err e) :
    Meets K (MonadExcept.throw e : ExceptT ε (StateM σ) α) s P Err := by
  refine ⟨hs, K.refl s, fun b s' h => ?_, fun e s' h => ?_⟩
  · cases h
  · cases h; exact he

theorem read (hs : K.holds s) :
    Meets K (get : ExceptT ε (StateM σ) σ) s (fun s' t => s' = s ∧ t = s) Err :=
  ⟨hs, K.refl s, fun t s' h => by cases h; exact ⟨rfl, rfl⟩, nofun⟩

theorem changed {change : σ → σ} (hs : K.holds (change s)) (hg : K.grows s (change s)) :
    Meets K (modify change : ExceptT ε (StateM σ) PUnit) s (fun s' _ => s' = change s) Err :=
  ⟨hs, hg, fun t s' h => by cases h; rfl, nofun⟩

theorem bind {x : ExceptT ε (StateM σ) α} {f : α → ExceptT ε (StateM σ) β}
    (hx : Meets K x s P Err)
    (hf : ∀ a s₁, x.on s = (.ok a, s₁) → K.holds s₁ → K.grows s s₁ → P s₁ a →
      Meets K (f a) s₁ Q Err) : Meets K (x >>= f) s Q Err := by
  have hs₁ := hx.holds
  have hg := hx.grows
  rcases hon : x.on s with ⟨e | a, s₁⟩ <;> rw [hon] at hs₁ hg
  · have hb := on_bind_of_error (f := f) hon
    refine ⟨hb ▸ hs₁, hb ▸ hg, ?_, ?_⟩
    · intro b s' h
      rw [hb] at h
      cases h
    · intro e' s' h
      rw [hb] at h
      cases h
      exact hx.error e _ hon
  · have hb := on_bind_of_ok (f := f) hon
    have h₁ := hf a s₁ hon hs₁ hg (hx.ok a _ hon)
    exact ⟨hb ▸ h₁.holds, K.trans hg (hb ▸ h₁.grows), fun b s' h => h₁.ok b s' (hb ▸ h),
      fun e s' h => h₁.error e s' (hb ▸ h)⟩

/-- Steps one after another, where nothing that the first gives is needed for the second. -/
theorem next {x : ExceptT ε (StateM σ) α} {f : α → ExceptT ε (StateM σ) β}
    (hx : Meets K x s P Err) (hf : ∀ a s₁, K.holds s₁ → Meets K (f a) s₁ Q Err) :
    Meets K (x >>= f) s Q Err :=
  .bind hx fun a s₁ _ hs₁ _ _ => hf a s₁ hs₁

/-- What is kept, said of the state that a step leaves. -/
theorem after {x : ExceptT ε (StateM σ) α} {r : Except ε α} {s' : σ} (h : Meets K x s P Err)
    (hon : x.on s = (r, s')) : K.holds s' ∧ K.grows s s' := by
  have hh := h.holds
  have hg := h.grows
  rw [hon] at hh hg
  exact ⟨hh, hg⟩

/-- A step that never fails gives what the condition says. -/
theorem succeeds {x : ExceptT ε (StateM σ) α} (h : Meets K x s P fun _ => False) :
    ∃ a, x.on s = (.ok a, (x.on s).2) ∧ P (x.on s).2 a := by
  rcases hon : x.on s with ⟨e | a, s'⟩
  · exact (h.error e s' hon).elim
  · exact ⟨a, rfl, h.ok a s' hon⟩

/-- Steps that come to the same on a state meet the same conditions there. -/
theorem of_on_eq {x y : ExceptT ε (StateM σ) α} (h : x.on s = y.on s) (hy : Meets K y s P Err) :
    Meets K x s P Err :=
  ⟨h ▸ hy.holds, h ▸ hy.grows, fun a s' ha => hy.ok a s' (h ▸ ha),
    fun e s' he => hy.error e s' (h ▸ he)⟩

/-- A step that goes by the state it starts from. -/
theorem get {f : σ → ExceptT ε (StateM σ) β} (hf : Meets K (f s) s Q Err) :
    Meets K (MonadState.get >>= f) s Q Err :=
  .of_on_eq (on_bind_of_ok (on_get s)) hf

/-- Steps that are refused under a condition, and taken otherwise. -/
theorem guarded {c : Prop} [Decidable c] {e : ε} {rest : PUnit → ExceptT ε (StateM σ) α}
    (hs : K.holds s) (he : Err e) (h : Meets K (rest ⟨⟩) s P Err) :
    Meets K (if c then MonadExcept.throw e >>= rest else rest ⟨⟩) s P Err := by
  split
  · exact .of_on_eq (on_bind_of_error rfl) (.throw hs he)
  · exact h

/-- A step of which the result is not needed. -/
theorem discard {x : ExceptT ε (StateM σ) α} (h : Meets K x s P Err) :
    Meets K (Functor.discard x) s (fun _ _ => True) Err :=
  .next h fun _ _ hs => .pure hs trivial

/-- A step whose failures are seen to by another. -/
theorem tryCatch {x : ExceptT ε (StateM σ) α} {handle : ε → ExceptT ε (StateM σ) α}
    (hx : Meets K x s P Err) (hh : ∀ e s₁, K.holds s₁ → Meets K (handle e) s₁ P Err) :
    Meets K (MonadExcept.tryCatch x handle) s P Err := by
  have ht := on_tryCatch x handle s
  have hs₁ := hx.holds
  have hg := hx.grows
  rcases hon : x.on s with ⟨e | a, s₁⟩ <;> rw [hon] at hs₁ hg ht
  · have ht : (MonadExcept.tryCatch x handle).on s = (handle e).on s₁ := ht
    have h₁ := hh e s₁ hs₁
    exact ⟨ht ▸ h₁.holds, K.trans hg (ht ▸ h₁.grows), fun a s' h => h₁.ok a s' (ht ▸ h),
      fun e s' h => h₁.error e s' (ht ▸ h)⟩
  · exact .of_on_eq (ht.trans hon.symm) hx

theorem mono {P' : σ → α → Prop} {x : ExceptT ε (StateM σ) α} (h : Meets K x s P Err)
    (hp : ∀ s' a, P s' a → P' s' a) : Meets K x s P' Err :=
  ⟨h.holds, h.grows, fun a s' ha => hp _ a (h.ok a s' ha), h.error⟩

/-- Steps that keep more keep less. -/
theorem weaken {K' : Keeping σ} {x : ExceptT ε (StateM σ) α} (h : Meets K x s P Err)
    (hholds : ∀ s, K.holds s → K'.holds s) (hgrows : ∀ s s', K.grows s s' → K'.grows s s') :
    Meets K' x s P Err :=
  ⟨hholds _ h.holds, hgrows _ _ h.grows, h.ok, h.error⟩

/-- More failures may be allowed. -/
theorem allow {Err' : ε → Prop} {x : ExceptT ε (StateM σ) α} (h : Meets K x s P Err)
    (he : ∀ e, Err e → Err' e) : Meets K x s P Err' :=
  ⟨h.holds, h.grows, h.ok, fun e s' hx => he e (h.error e s' hx)⟩

/-- One step for each of a list, in order: what each gives goes on to satisfy the condition while
the others are done. -/
theorem mapM {F : α → ExceptT ε (StateM σ) β} {T : σ → α → β → Prop}
    (hT : ∀ s s' a b, K.grows s s' → T s a b → T s' a b) (as : List α) (hs : K.holds s)
    (hF : ∀ a ∈ as, ∀ s₁, K.holds s₁ → K.grows s s₁ → Meets K (F a) s₁ (T · a) Err) :
    Meets K (as.mapM F) s (fun s' bs => List.Forall₂ (T s') as bs) Err := by
  induction as generalizing s with
  | nil => exact .pure hs .nil
  | cons a as ih =>
      rw [List.mapM_cons]
      refine .bind (hF a (by simp) s hs (K.refl s)) fun b s₁ _ hs₁ hg₁ hb => ?_
      have hrest := ih hs₁ fun a' ha' s₂ hs₂ hg₂ =>
        hF a' (List.mem_cons_of_mem _ ha') s₂ hs₂ (K.trans hg₁ hg₂)
      refine .bind hrest fun bs s₂ _ hs₂ hg₂ hbs => ?_
      exact .pure hs₂ (.cons (hT _ _ _ _ hg₂ hb) hbs)

/-- One step for each of a list, in order: of all that they give a condition holds in the end. -/
theorem mapM_all {F : α → ExceptT ε (StateM σ) β} {T : σ → β → Prop}
    (hT : ∀ s s' b, K.grows s s' → T s b → T s' b) (as : List α) (hs : K.holds s)
    (hF : ∀ a ∈ as, ∀ s₁, K.holds s₁ → K.grows s s₁ → Meets K (F a) s₁ T Err) :
    Meets K (as.mapM F) s (fun s' bs => ∀ b ∈ bs, T s' b) Err := by
  refine (mapM (T := fun s' _ b => T s' b) (fun s s' _ b => hT s s' b) as hs hF).mono
    fun s' bs h b hb => ?_
  obtain ⟨j, hj, rfl⟩ := List.getElem_of_mem hb
  obtain ⟨hlen, hget⟩ := List.forall₂_iff_get.mp h
  exact hget j (hlen ▸ hj) hj

/-- Steps in order that carry something along, of which a condition goes on to hold. -/
theorem foldlM {F : β → α → ExceptT ε (StateM σ) β} {as : List α} {b : β}
    (hs : K.holds s) (hb : Q s b)
    (hF : ∀ a ∈ as, ∀ b s₁, K.holds s₁ → K.grows s s₁ → Q s₁ b → Meets K (F b a) s₁ Q Err) :
    Meets K (as.foldlM F b) s Q Err := by
  induction as generalizing s b with
  | nil => exact .pure hs hb
  | cons a as ih =>
      rw [List.foldlM_cons]
      refine .bind (hF a (by simp) b s hs (K.refl s) hb) fun b₁ s₁ _ hs₁ hg₁ hb₁ => ?_
      exact ih hs₁ hb₁ fun a' ha' b' s₂ hs₂ hg₂ hb' =>
        hF a' (List.mem_cons_of_mem _ ha') b' s₂ hs₂ (K.trans hg₁ hg₂) hb'

/-- A loop over a list that is never left early: what a round gives goes on to hold while the others
are done. -/
theorem loop_all {F : α → PUnit → ExceptT ε (StateM σ) (ForInStep PUnit)} {T : σ → α → Prop}
    (hT : ∀ s s' a, K.grows s s' → T s a → T s' a) {as : List α} (hs : K.holds s)
    (hF : ∀ a ∈ as, ∀ s₁, K.holds s₁ → K.grows s s₁ →
      Meets K (F a ⟨⟩) s₁ (fun s' r => r = .yield ⟨⟩ ∧ T s' a) Err) :
    Meets K (forIn as PUnit.unit F) s (fun s' _ => ∀ a ∈ as, T s' a) Err := by
  induction as generalizing s with
  | nil => exact .pure hs nofun
  | cons a as ih =>
      rw [List.forIn_cons]
      refine .bind (hF a (by simp) s hs (K.refl s)) fun r s₁ _ hs₁ hg₁ ⟨hr, ha⟩ => ?_
      subst hr
      have hrest := ih hs₁ fun a' ha' s₂ hs₂ hg₂ =>
        hF a' (List.mem_cons_of_mem _ ha') s₂ hs₂ (K.trans hg₁ hg₂)
      refine ⟨hrest.holds, hrest.grows, fun u s' hon a' ha' => ?_, hrest.error⟩
      rcases List.mem_cons.mp ha' with rfl | ha'
      · have hg := hrest.grows
        have hon' : (forIn as PUnit.unit F).on s₁ = (.ok u, s') := hon
        rw [hon'] at hg
        exact hT _ _ _ hg ha
      · exact hrest.ok u s' hon a' ha'

/-- A loop over a list that is never left early. -/
theorem loop {F : α → PUnit → ExceptT ε (StateM σ) (ForInStep PUnit)} {as : List α}
    (hs : K.holds s)
    (hF : ∀ a ∈ as, ∀ s₁, K.holds s₁ → K.grows s s₁ →
      Meets K (F a ⟨⟩) s₁ (fun _ r => r = .yield ⟨⟩) Err) :
    Meets K (forIn as PUnit.unit F) s (fun _ _ => True) Err :=
  (loop_all (T := fun _ _ => True) (fun _ _ _ _ _ => trivial) hs fun a ha s₁ hs₁ hg₁ =>
    (hF a ha s₁ hs₁ hg₁).mono fun _ _ hr => ⟨hr, trivial⟩).mono fun _ _ _ => trivial

/-- A step for each of a list, in order. -/
theorem each {F : α → ExceptT ε (StateM σ) PUnit} {as : List α} (hs : K.holds s)
    (hF : ∀ a ∈ as, ∀ s₁, K.holds s₁ → K.grows s s₁ → Meets K (F a) s₁ (fun _ _ => True) Err) :
    Meets K (forIn as PUnit.unit fun a _ => do F a; Pure.pure (ForInStep.yield PUnit.unit)) s
      (fun _ _ => True) Err :=
  .loop hs fun a ha s₁ hs₁ hg₁ => .bind (hF a ha s₁ hs₁ hg₁) fun _ _ _ hs₂ _ _ => .pure hs₂ rfl

theorem forM {F : α → ExceptT ε (StateM σ) PUnit} {as : List α} (hs : K.holds s)
    (hF : ∀ a ∈ as, ∀ s₁, K.holds s₁ → K.grows s s₁ → Meets K (F a) s₁ (fun _ _ => True) Err) :
    Meets K (as.forM F) s (fun _ _ => True) Err := by
  induction as generalizing s with
  | nil => exact .pure hs trivial
  | cons a as ih =>
      show Meets K (F a >>= fun _ => as.forM F) s _ Err
      refine .bind (hF a (by simp) s hs (K.refl s)) fun _ s₁ _ hs₁ hg₁ _ => ?_
      exact ih hs₁ fun a' ha' s₂ hs₂ hg₂ =>
        hF a' (List.mem_cons_of_mem _ ha') s₂ hs₂ (K.trans hg₁ hg₂)

end Effect.Meets

end Ssa

/-
# `Ssa.Proofs.Session.Changes` — the ways in which a session changes

Whatever is done in a session comes to changes of ten kinds: four leave what there is as it is, three
make a thing and three release one.  Each keeps a session sound.

**Proved here.**

    a change of a sound session leads to a sound session          (`Change.isSound`)
-/
import Ssa.Proofs.Session.Sound

namespace Ssa

/-- A record of a module comes of another by building. -/
structure ModuleRecord.BuildsTo (r r' : ModuleRecord) : Prop where
  id : r'.id = r.id
  context : r'.context = r.context
  leads : ∃ types types' : TypeTable,
    Workbench.Leads ⟨types, r.module, r.table⟩ ⟨types', r'.module, r'.table⟩

namespace Session

/-! ## Changes -/

/-- A session with one more context. -/
def addContext (s : Session) (isGlobal : Bool) : Session :=
  { s with
    registry := (s.registry.insert Kind.context.word ()).2
    contexts := s.contexts ++ [⟨s.registry.next, isGlobal, [], []⟩]
    globalContext := if isGlobal then some s.registry.next else s.globalContext }

/-- A session with one more module, in a context. -/
def addModule (s : Session) (name : String) (context : Nat) : Session :=
  { s with
    registry := (s.registry.insert Kind.module.word ()).2
    modules := s.modules ++ [⟨s.registry.next, context, .empty name, []⟩]
    contexts := s.contexts.map fun c =>
      if c.id = context then { c with modules := c.modules ++ [s.registry.next] } else c }

/-- A session with one more engine, of a module. -/
def addEngine (s : Session) (m : Nat) (backend : Backend) : Session :=
  { s with
    registry := (s.registry.insert Kind.engine.word ()).2
    engines := s.engines ++ [⟨s.registry.next, m, backend, []⟩] }

/-- A session without the thing of a number. -/
def without (s : Session) (id : Nat) : Session :=
  { s with registry := (s.registry.release id).2 }

/-- A session without a module, which has left its context. -/
def withoutModule (s : Session) (r : ModuleRecord) : Session :=
  { s.without r.id with
    contexts := s.contexts.map fun c =>
      if c.id = r.context then { c with modules := c.modules.filter (· != r.id) } else c }

/-- A session in which the record of a module was changed. -/
def changeModule (s : Session) (id : Nat) (change : ModuleRecord → ModuleRecord) : Session :=
  { s with modules := s.modules.map fun r => if r.id = id then change r else r }

/-- A session in which a context has other structures. -/
def changeTypes (s : Session) (id : Nat) (types : TypeTable) : Session :=
  { s with contexts := s.contexts.map fun c => if c.id = id then { c with types } else c }

/-- A session in which the global variables of an engine have other storage. -/
def changeGlobals (s : Session) (id : Nat) (globals : List (Nat × Nat)) : Session :=
  { s with engines := s.engines.map fun e => if e.id = id then { e with globals } else e }

/-- A way in which a session changes.  Only numbers that are free may be released. -/
inductive Change (free : Nat → Prop) (s : Session) : Session → Prop
  | aside (storage : Storage) (files : Files) (ready : Bool) (log : List Event) :
      Change free s { s with storage, files, generator := { s.generator with ready }, log }
  | stored (id : Nat) (globals : List (Nat × Nat)) : Change free s (s.changeGlobals id globals)
  | typed (id : Nat) (types : TypeTable) : Change free s (s.changeTypes id types)
  | built (id : Nat) (change : ModuleRecord → ModuleRecord) :
      (∀ r, s.module? id = some r → r.BuildsTo (change r)) →
      Change free s (s.changeModule id change)
  | contextMade (isGlobal : Bool) : (isGlobal = true → s.globalContext = none) →
      Change free s (s.addContext isGlobal)
  | moduleMade (name : String) {context : Nat} :
      context ∈ s.ids .context → s.isLive context = true →
      Change free s (s.addModule name context)
  | engineMade (backend : Backend) {m : Nat} : m ∈ s.ids .module →
      Change free s (s.addEngine m backend)
  | engineReleased {id : Nat} : id ∈ s.ids .engine → free id → Change free s (s.without id)
  | moduleReleased {r : ModuleRecord} : r ∈ s.modules → free r.id →
      Change free s (s.withoutModule r)
  | contextReleased {c : ContextRecord} :
      c ∈ s.contexts → c.isGlobal = false → c.modules = [] → free c.id →
      Change free s (s.without c.id)

/-! ## Soundness -/

variable {free : Nat → Prop} {s s' : Session}

theorem residents_congr (s s' : Session) (hmodules : s'.modules = s.modules)
    (hlive : ∀ r ∈ s.modules, s'.isLive r.id = s.isLive r.id) (c : Nat) :
    s'.residents c = s.residents c := by
  rw [residents, hmodules, residents]
  exact congrArg _ (List.filter_congr fun r hr => by rw [hlive r hr])

/-- The live modules of a context do not depend on what the modules are like. -/
theorem residents_outline (s : Session) (c : Nat) :
    s.residents c = ((s.modules.map fun r => (r.id, r.context)).filter fun p =>
      p.2 == c && s.isLive p.1).map Prod.fst := by
  rw [List.filter_map, List.map_map]
  rfl

theorem mem_residents {c id : Nat} :
    id ∈ s.residents c ↔ ∃ r ∈ s.modules, r.context = c ∧ s.isLive r.id = true ∧ r.id = id := by
  simp [residents, and_assoc]

/-- A session in which nothing is made or released stays sound. -/
theorem IsSound.of_outline (h : s.IsSound) (hregistry : s'.registry = s.registry)
    (hglobal : s'.globalContext = s.globalContext)
    (hcontexts : s'.contexts.map (fun c => (c.id, c.isGlobal, c.modules)) =
      s.contexts.map fun c => (c.id, c.isGlobal, c.modules))
    (hmodules : s'.modules.map (fun r => (r.id, r.context)) =
      s.modules.map fun r => (r.id, r.context))
    (hengines : s'.engines.map (fun e => (e.id, e.module)) =
      s.engines.map fun e => (e.id, e.module))
    (hnamed : ∀ r ∈ s'.modules, r.module.IsNamed ∧ r.module.Lists r.table) : s'.IsSound := by
  have hids : s'.ids = s.ids := by
    funext k
    cases k with
    | context =>
        have := congrArg (List.map Prod.fst) hcontexts
        rwa [List.map_map, List.map_map] at this
    | module =>
        have := congrArg (List.map Prod.fst) hmodules
        rwa [List.map_map, List.map_map] at this
    | engine =>
        have := congrArg (List.map Prod.fst) hengines
        rwa [List.map_map, List.map_map] at this
  have hlive (id : Nat) : s'.isLive id = s.isLive id := by rw [isLive, hregistry, isLive]
  have hresidents (c : Nat) : s'.residents c = s.residents c := by
    rw [residents_outline, hmodules, residents_outline]
    simp only [hlive]
  -- each record of the one session has one of the other with the same numbers in it
  have hcontext (c' : ContextRecord) (hc' : c' ∈ s'.contexts) : ∃ c ∈ s.contexts,
      (c.id, c.isGlobal, c.modules) = (c'.id, c'.isGlobal, c'.modules) :=
    List.mem_map.mp (hcontexts ▸ List.mem_map.mpr ⟨c', hc', rfl⟩)
  have hmodule (r' : ModuleRecord) (hr' : r' ∈ s'.modules) :
      ∃ r ∈ s.modules, (r.id, r.context) = (r'.id, r'.context) :=
    List.mem_map.mp (hmodules ▸ List.mem_map.mpr ⟨r', hr', rfl⟩)
  have hengine (e' : EngineRecord) (he' : e' ∈ s'.engines) :
      ∃ e ∈ s.engines, (e.id, e.module) = (e'.id, e'.module) :=
    List.mem_map.mp (hengines ▸ List.mem_map.mpr ⟨e', he', rfl⟩)
  refine ⟨by rw [hregistry, hids]; exact h.numbers, ?_, ?_, ?_, ?_, ?_, ?_,
    fun r hr => (hnamed r hr).1, fun r hr => (hnamed r hr).2⟩
  · intro c' hc'
    obtain ⟨c, hc, heq⟩ := hcontext c' hc'
    simp only [Prod.mk.injEq] at heq
    rw [hresidents, ← heq.1, ← heq.2.2, h.attached c hc]
  · intro r' hr'
    obtain ⟨r, hr, heq⟩ := hmodule r' hr'
    simp only [Prod.mk.injEq] at heq
    rw [hids, ← heq.2]
    exact h.homed r hr
  · intro r' hr'
    obtain ⟨r, hr, heq⟩ := hmodule r' hr'
    simp only [Prod.mk.injEq] at heq
    rw [hlive, hlive, ← heq.1, ← heq.2]
    exact h.sheltered r hr
  · intro c' hc'
    obtain ⟨c, hc, heq⟩ := hcontext c' hc'
    simp only [Prod.mk.injEq] at heq
    rw [hglobal, ← heq.1, ← heq.2.1]
    exact h.isGlobal c hc
  · intro id hid
    rw [hids, hlive]
    exact h.globalLive id (hglobal ▸ hid)
  · intro e' he'
    obtain ⟨e, he, heq⟩ := hengine e' he'
    simp only [Prod.mk.injEq] at heq
    rw [hids, ← heq.2]
    exact h.bound e he

theorem IsSound.changeModule (h : s.IsSound) {id : Nat} {change : ModuleRecord → ModuleRecord}
    (hchange : ∀ r, s.module? id = some r → r.BuildsTo (change r)) :
    (s.changeModule id change).IsSound := by
  have hbuilt (r : ModuleRecord) (hr : r ∈ s.modules) (hid : r.id = id) :
      r.BuildsTo (change r) := hchange r (h.module?_iff.mpr ⟨hr, hid⟩)
  refine h.of_outline rfl rfl rfl ?_ rfl fun r' hr' => ?_
  · rw [Session.changeModule, List.map_map]
    refine List.map_congr_left fun r hr => ?_
    dsimp only [Function.comp]
    split
    · rename_i hid
      rw [(hbuilt r hr hid).id, (hbuilt r hr hid).context]
    · rfl
  · obtain ⟨r, hr, rfl⟩ := List.mem_map.mp hr'
    split
    · rename_i hid
      obtain ⟨types, types', hleads⟩ := (hbuilt r hr hid).leads
      exact ⟨hleads.isNamed (h.named r hr), hleads.lists (h.listed r hr)⟩
    · exact ⟨h.named r hr, h.listed r hr⟩

theorem IsSound.changeTypes (h : s.IsSound) (id : Nat) (types : TypeTable) :
    (s.changeTypes id types).IsSound := by
  refine h.of_outline rfl rfl ?_ rfl rfl fun r hr => ⟨h.named r hr, h.listed r hr⟩
  rw [Session.changeTypes, List.map_map]
  exact List.map_congr_left fun c _ => by dsimp only [Function.comp]; split <;> rfl

theorem IsSound.changeGlobals (h : s.IsSound) (id : Nat) (globals : List (Nat × Nat)) :
    (s.changeGlobals id globals).IsSound := by
  refine h.of_outline rfl rfl rfl rfl ?_ fun r hr => ⟨h.named r hr, h.listed r hr⟩
  rw [Session.changeGlobals, List.map_map]
  exact List.map_congr_left fun e _ => by dsimp only [Function.comp]; split <;> rfl

/-! ### What is live -/

theorem mem_ids_of_module {r : ModuleRecord} (hr : r ∈ s.modules) : r.id ∈ s.ids .module :=
  List.mem_map.mpr ⟨r, hr, rfl⟩

theorem mem_ids_of_context {c : ContextRecord} (hc : c ∈ s.contexts) : c.id ∈ s.ids .context :=
  List.mem_map.mpr ⟨c, hc, rfl⟩

theorem IsSound.ne_next (h : s.IsSound) {k : Kind} {id : Nat} (hid : id ∈ s.ids k) :
    id ≠ s.registry.next := fun heq => h.numbers.next_not_mem k (heq ▸ hid)

/-- What was there is live after something was made exactly if it was. -/
theorem IsSound.isLive_insert (h : s.IsSound) {k' : Kind} {id : Nat} (hid : id ∈ s.ids k')
    (k : Kind) : (s.registry.insert k.word ()).2.isLive id = s.isLive id := by
  rw [Registry.isLive_insert h.numbers.ordered, decide_eq_false (h.ne_next hid), Bool.false_or,
    isLive]

theorem isLive_without {id i : Nat} : (s.without id).isLive i = (decide (i ≠ id) && s.isLive i) :=
  Registry.isLive_release _ _ _

theorem isLive_without_of_ne {id i : Nat} (hi : i ≠ id) : (s.without id).isLive i = s.isLive i := by
  rw [isLive_without, decide_eq_true hi, Bool.true_and]

/-! ### Making -/

/-- Contexts that are only given other modules keep their numbers. -/
theorem contextIds_map {cs : List ContextRecord} {change : ContextRecord → ContextRecord}
    (hchange : ∀ c, (change c).id = c.id) :
    (cs.map change).map ContextRecord.id = cs.map ContextRecord.id := by
  rw [List.map_map]
  exact List.map_congr_left fun c _ => hchange c

theorem IsSound.addContext (h : s.IsSound) {isGlobal : Bool}
    (hglobal : isGlobal = true → s.globalContext = none) : (s.addContext isGlobal).IsSound := by
  have hlive {k : Kind} {id : Nat} (hid : id ∈ s.ids k) :
      (s.addContext isGlobal).isLive id = s.isLive id := h.isLive_insert hid .context
  have hresidents (c : Nat) : (s.addContext isGlobal).residents c = s.residents c :=
    residents_congr s (s.addContext isGlobal) rfl (fun r hr => hlive (mem_ids_of_module hr)) c
  have hids : (s.addContext isGlobal).ids .context = s.ids .context ++ [s.registry.next] := by
    simp [ids, Session.addContext]
  have hold {id : Nat} (hid : id ∈ s.ids .context) : id ∈ (s.addContext isGlobal).ids .context :=
    hids ▸ List.mem_append_left _ hid
  constructor
  case numbers =>
    exact h.numbers.insert .context hids fun k hk => by cases k <;> first | rfl | exact absurd rfl hk
  case attached =>
    intro c hc
    rw [hresidents]
    rcases List.mem_append.mp hc with hc | hc
    · exact h.attached c hc
    · cases List.mem_singleton.mp hc
      refine (List.eq_nil_iff_forall_not_mem.mpr fun id hid => ?_).symm
      obtain ⟨r, hr, hctx, -, -⟩ := mem_residents.mp hid
      exact h.ne_next (h.homed r hr) hctx
  case homed => exact fun r hr => hold (h.homed r hr)
  case sheltered =>
    intro r hr hr'
    rw [hlive (h.homed r hr)]
    exact h.sheltered r hr ((hlive (mem_ids_of_module hr)).symm.trans hr')
  case isGlobal =>
    intro c hc
    show c.isGlobal = true ↔ (if isGlobal then some s.registry.next else s.globalContext) = some c.id
    rcases List.mem_append.mp hc with hc | hc
    · have hne : s.registry.next ≠ c.id := Ne.symm (h.ne_next (mem_ids_of_context hc))
      rw [h.isGlobal c hc]
      cases isGlobal with
      | false => rfl
      | true => simp [hglobal rfl, hne]
    · cases List.mem_singleton.mp hc
      cases isGlobal with
      | false =>
          have hne : s.globalContext ≠ some s.registry.next := fun hsome =>
            h.ne_next (h.globalLive _ hsome).1 rfl
          simp [hne]
      | true => simp
  case globalLive =>
    intro id hid
    replace hid : (if isGlobal then some s.registry.next else s.globalContext) = some id := hid
    cases isGlobal with
    | false =>
        obtain ⟨hmem, hlive'⟩ := h.globalLive id hid
        exact ⟨hold hmem, (hlive hmem).trans hlive'⟩
    | true =>
        cases hid
        exact ⟨by simp [hids], by
          rw [isLive, Session.addContext, Registry.isLive_insert h.numbers.ordered]
          simp⟩
  case bound => exact h.bound
  case named => exact h.named
  case listed => exact h.listed

/-- A new module is the last of those in its context, and in no other. -/
theorem IsSound.residents_addModule (h : s.IsSound) (name : String) (context c : Nat) :
    (s.addModule name context).residents c =
      s.residents c ++ if context = c then [s.registry.next] else [] := by
  have hlive (r : ModuleRecord) (hr : r ∈ s.modules) :
      (s.addModule name context).isLive r.id = s.isLive r.id :=
    h.isLive_insert (mem_ids_of_module hr) .module
  have hold : (s.modules.filter fun r => r.context == c && (s.addModule name context).isLive r.id) =
      s.modules.filter fun r => r.context == c && s.isLive r.id :=
    List.filter_congr fun r hr => by rw [hlive r hr]
  have hnext : (s.addModule name context).isLive s.registry.next = true := by
    rw [isLive, Session.addModule, Registry.isLive_insert h.numbers.ordered]
    simp
  show ((s.modules ++ [_]).filter _).map _ = _
  rw [List.filter_append, List.map_append, hold, residents, List.filter_singleton]
  dsimp only
  rw [hnext, Bool.and_true]
  by_cases hc : context = c
  · simp [hc]
  · rw [beq_false_of_ne hc, if_neg hc]
    rfl

theorem IsSound.addModule (h : s.IsSound) (name : String) {context : Nat}
    (hmem : context ∈ s.ids .context) (hshelter : s.isLive context = true) :
    (s.addModule name context).IsSound := by
  have hlive {k : Kind} {id : Nat} (hid : id ∈ s.ids k) :
      (s.addModule name context).isLive id = s.isLive id := h.isLive_insert hid .module
  have hmodules : (s.addModule name context).ids .module = s.ids .module ++ [s.registry.next] := by
    simp [ids, Session.addModule]
  have hcontexts : (s.addModule name context).ids .context = s.ids .context :=
    contextIds_map fun c => by split <;> rfl
  have hresidents := h.residents_addModule name context
  constructor
  case numbers =>
    refine h.numbers.insert .module hmodules fun k hk => ?_
    cases k with
    | context => exact hcontexts
    | module => exact absurd rfl hk
    | engine => rfl
  case attached =>
    intro c hc
    obtain ⟨c, hmem', rfl⟩ := List.mem_map.mp hc
    split
    · rename_i heq
      dsimp only
      rw [hresidents, if_pos heq.symm, h.attached c hmem']
    · rename_i hne
      rw [hresidents, if_neg (Ne.symm hne), List.append_nil, h.attached c hmem']
  case homed =>
    intro r hr
    rw [hcontexts]
    rcases List.mem_append.mp hr with hr | hr
    · exact h.homed r hr
    · cases List.mem_singleton.mp hr
      exact hmem
  case sheltered =>
    intro r hr hr'
    rcases List.mem_append.mp hr with hr | hr
    · rw [hlive (h.homed r hr)]
      exact h.sheltered r hr ((hlive (mem_ids_of_module hr)).symm.trans hr')
    · cases List.mem_singleton.mp hr
      exact (hlive hmem).trans hshelter
  case isGlobal =>
    intro c hc
    obtain ⟨c, hmem', rfl⟩ := List.mem_map.mp hc
    split <;> exact h.isGlobal c hmem'
  case globalLive =>
    intro id hid
    obtain ⟨hid', hlive'⟩ := h.globalLive id hid
    exact ⟨hcontexts ▸ hid', (hlive hid').trans hlive'⟩
  case bound => exact fun e he => hmodules ▸ List.mem_append_left _ (h.bound e he)
  case named =>
    intro r hr
    rcases List.mem_append.mp hr with hr | hr
    · exact h.named r hr
    · cases List.mem_singleton.mp hr
      exact Module.empty_isNamed name
  case listed =>
    intro r hr
    rcases List.mem_append.mp hr with hr | hr
    · exact h.listed r hr
    · cases List.mem_singleton.mp hr
      exact Module.lists_nil _

theorem IsSound.addEngine (h : s.IsSound) (backend : Backend) {m : Nat} (hm : m ∈ s.ids .module) :
    (s.addEngine m backend).IsSound := by
  have hlive {k : Kind} {id : Nat} (hid : id ∈ s.ids k) :
      (s.addEngine m backend).isLive id = s.isLive id := h.isLive_insert hid .engine
  constructor
  case numbers =>
    exact h.numbers.insert .engine (by simp [ids, Session.addEngine]) fun k hk => by
      cases k <;> first | rfl | exact absurd rfl hk
  case attached =>
    intro c hc
    rw [residents_congr s (s.addEngine m backend) rfl fun r hr => hlive (mem_ids_of_module hr)]
    exact h.attached c hc
  case homed => exact h.homed
  case sheltered =>
    intro r hr hr'
    rw [hlive (h.homed r hr)]
    exact h.sheltered r hr ((hlive (mem_ids_of_module hr)).symm.trans hr')
  case isGlobal => exact h.isGlobal
  case globalLive =>
    intro id hid
    obtain ⟨hid', hlive'⟩ := h.globalLive id hid
    exact ⟨hid', (hlive hid').trans hlive'⟩
  case bound =>
    intro e he
    rcases List.mem_append.mp he with he | he
    · exact h.bound e he
    · cases List.mem_singleton.mp he
      exact hm
  case named => exact h.named
  case listed => exact h.listed

/-! ### Releasing -/

/-- What is neither a module nor the context of a live one may be released, unless it is the global
context. -/
theorem IsSound.without (h : s.IsSound) {id : Nat} (hmodule : id ∉ s.ids .module)
    (hempty : ∀ r ∈ s.modules, s.isLive r.id = true → r.context ≠ id)
    (hglobal : s.globalContext ≠ some id) : (s.without id).IsSound := by
  have hlive (r : ModuleRecord) (hr : r ∈ s.modules) :
      (s.without id).isLive r.id = s.isLive r.id :=
    isLive_without_of_ne fun heq => hmodule (heq ▸ mem_ids_of_module hr)
  constructor
  case numbers => exact h.numbers.release id
  case attached =>
    intro c hc
    rw [residents_congr s (s.without id) rfl hlive]
    exact h.attached c hc
  case homed => exact h.homed
  case sheltered =>
    intro r hr hr'
    rw [hlive r hr] at hr'
    rw [isLive_without_of_ne (hempty r hr hr')]
    exact h.sheltered r hr hr'
  case isGlobal => exact h.isGlobal
  case globalLive =>
    intro i hi
    obtain ⟨hmem, hlive'⟩ := h.globalLive i hi
    have hne : i ≠ id := fun heq => hglobal (heq ▸ hi)
    exact ⟨hmem, (isLive_without_of_ne hne).trans hlive'⟩
  case bound => exact h.bound
  case named => exact h.named
  case listed => exact h.listed

/-- A module that is released is none of those in its context any more. -/
theorem residents_withoutModule (s : Session) (r : ModuleRecord) (c : Nat) :
    (s.withoutModule r).residents c = (s.residents c).filter (· != r.id) := by
  have hlive (id : Nat) : (s.withoutModule r).isLive id = (decide (id ≠ r.id) && s.isLive id) :=
    isLive_without
  rw [residents, residents, List.filter_map, List.filter_filter]
  refine congrArg _ (List.filter_congr fun r' _ => ?_)
  rw [hlive]
  by_cases heq : r'.id = r.id <;> simp [heq]

theorem IsSound.withoutModule (h : s.IsSound) {r : ModuleRecord} (hr : r ∈ s.modules) :
    (s.withoutModule r).IsSound := by
  have hcontexts : (s.withoutModule r).ids .context = s.ids .context :=
    contextIds_map fun c => by split <;> rfl
  have hcontext {id : Nat} (hid : id ∈ s.ids .context) :
      (s.withoutModule r).isLive id = s.isLive id :=
    isLive_without_of_ne fun heq =>
      nomatch h.numbers.apart .context .module id hid (heq ▸ mem_ids_of_module hr)
  constructor
  case numbers =>
    have hids : (s.withoutModule r).ids = s.ids := by
      funext k
      cases k with
      | context => exact hcontexts
      | module | engine => rfl
    rw [hids]
    exact h.numbers.release _
  case attached =>
    intro c hc
    obtain ⟨c, hmem', rfl⟩ := List.mem_map.mp hc
    split
    · rw [residents_withoutModule, h.attached c hmem']
    · rename_i hne
      -- the module that is gone was in another context
      rw [residents_withoutModule, h.attached c hmem', List.filter_eq_self.mpr]
      intro id hid
      obtain ⟨r', hr', hctx, -, rfl⟩ := mem_residents.mp hid
      have : r'.id ≠ r.id := fun heq => hne (by
        rw [← hctx, List.inj_on_of_nodup_map (h.numbers.distinct .module) hr' hr heq])
      simpa using this
  case homed => exact fun r' hr' => hcontexts ▸ h.homed r' hr'
  case sheltered =>
    intro r' hr' hlive'
    rw [hcontext (h.homed r' hr')]
    exact h.sheltered r' hr' (Bool.and_eq_true_iff.mp (isLive_without.symm.trans hlive')).2
  case isGlobal =>
    intro c hc
    obtain ⟨c, hmem', rfl⟩ := List.mem_map.mp hc
    split <;> exact h.isGlobal c hmem'
  case globalLive =>
    intro id hid
    obtain ⟨hmem, hlive'⟩ := h.globalLive id hid
    exact ⟨hcontexts ▸ hmem, (hcontext hmem).trans hlive'⟩
  case bound => exact h.bound
  case named => exact h.named
  case listed => exact h.listed

/-- A change of a sound session leads to a sound session. -/
theorem Change.isSound (hc : s.Change free s') (h : s.IsSound) : s'.IsSound := by
  cases hc with
  | aside => exact h.of_outline rfl rfl rfl rfl rfl fun r hr => ⟨h.named r hr, h.listed r hr⟩
  | stored id globals => exact h.changeGlobals id globals
  | typed id types => exact h.changeTypes id types
  | built id change hchange => exact h.changeModule hchange
  | contextMade isGlobal hglobal => exact h.addContext hglobal
  | moduleMade name hmem hlive => exact h.addModule name hmem hlive
  | engineMade backend hm => exact h.addEngine backend hm
  | @engineReleased id hid _ =>
      refine h.without ?_ ?_ ?_
      · exact fun hmodule => nomatch h.numbers.apart _ _ _ hid hmodule
      · rintro r hr - rfl
        nomatch h.numbers.apart _ _ _ hid (h.homed r hr)
      · exact fun hglobal => nomatch h.numbers.apart _ _ _ hid (h.globalLive _ hglobal).1
  | moduleReleased hr _ => exact h.withoutModule hr
  | @contextReleased c hc hlocal hnone _ =>
      refine h.without ?_ ?_ ?_
      · exact fun hmodule => nomatch h.numbers.apart _ _ _ (mem_ids_of_context hc) hmodule
      · intro r hr hlive hctx
        have hmem : r.id ∈ s.residents c.id := mem_residents.mpr ⟨r, hr, hctx, hlive, rfl⟩
        rw [← h.attached c hc, hnone] at hmem
        cases hmem
      · intro hglobal
        rw [(h.isGlobal c hc).mpr hglobal] at hlocal
        cases hlocal

end Session

end Ssa

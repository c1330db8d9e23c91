-- Caches do not show. Layouts and plans are kept from the first time they are
-- asked for and never thrown away, while classes go on being added. That is safe
-- because all they are made from is there when the class is, and stays: the line
-- of the class, the fields it declares and its flags.
import DeepCopy.Proofs.Ancestry

namespace DeepCopy

/-! ## Maps that remember -/

namespace Assoc

variable {κ ν ε : Type} [DecidableEq κ] {f g : κ → Except ε ν} {m : Assoc κ ν}

/-- Putting what is there changes nothing. -/
theorem put_of_find? {k : κ} {v : ν} (h : find? k m = some v) : put k v m = m := by
  induction m with
  | nil => cases h
  | cons e m ih =>
    obtain ⟨k', v'⟩ := e
    unfold find? at h
    unfold put
    split at h
    · rename_i hk
      cases h
      rw [if_pos hk]
    · rename_i hk
      rw [if_neg hk, ih h]

/-- A map remembers a function: what it has for a key is what the function gives. -/
def Remembers (f : κ → Except ε ν) (m : Assoc κ ν) : Prop := ∀ k v, find? k m = some v → f k = .ok v

theorem remembers_nil (f : κ → Except ε ν) : Remembers f ([] : Assoc κ ν) :=
  fun _ _ h => by cases h

theorem Remembers.mono (h : Remembers f m) (hfg : ∀ k v, f k = .ok v → g k = .ok v) :
    Remembers g m := fun k v hv => hfg k v (h k v hv)

theorem Remembers.put (h : Remembers f m) {k : κ} {v : ν} (hv : f k = .ok v) :
    Remembers f (put k v m) := by
  intro k' v' hv'
  rw [find?_put] at hv'
  split at hv'
  · rename_i hk
    cases hv'
    exact hk ▸ hv
  · exact h k' v' hv'

end Assoc

/-! ## What is worked out afresh -/

/-- The plan of a class with nothing taken from what is kept. -/
def Plan.build (r : Registry) (classify : Classifier) (cls : ClassId) : Except CloneError Plan :=
  Except.mapError (.introspection (r.className cls)) do
    let e ← r.entry cls
    let layout ← r.build cls
    .ok (ofEntry r classify cls { e with layout })

namespace Registry

variable {r r' : Registry} {id : ClassId} {e : Entry}

/-- Whether the ancestors pass immutability on does not change any more. -/
theorem inheritsImmutability_extend (hr : r.Built) (hr' : r'.Built) (hext : r.Extends r')
    (he : r.get? id = some e) : r'.inheritsImmutability id = r.inheritsImmutability id := by
  obtain ⟨chain, hline⟩ := hr.consistent.exists_line he
  simp only [inheritsImmutability, hline.ancestors_eq hr.consistent,
    (hline.extend hext).ancestors_eq hr'.consistent]
  rw [Bool.eq_iff_iff, List.any_eq_true, List.any_eq_true]
  refine exists_congr fun a => and_congr_right fun ha => ?_
  obtain ⟨above, habove, -⟩ := hline.of_mem (List.mem_of_mem_drop ha)
  obtain ⟨p, hp⟩ := habove.registered
  rw [hp, hext a p hp]

theorem byFlags_extend (hr : r.Built) (hr' : r'.Built) (hext : r.Extends r')
    (he : r.get? id = some e) :
    Classifier.byFlags r' id e.decl = Classifier.byFlags r id e.decl := by
  simp only [Classifier.byFlags, inheritsImmutability_extend hr hr' hext he]

theorem build_extend (hr : r.Built) (hr' : r'.Built) (hext : r.Extends r') {l : Layout}
    (h : r.build id = .ok l) : r'.build id = .ok l := by
  cases he : r.get? id with
  | none =>
    rw [build_of_new he] at h
    cases h
  | some e =>
    rw [hr.build_of_get? he] at h
    rw [hr'.build_of_get? (hext id e he), h]

end Registry

namespace Plan

variable {r r' : Registry} {classify : Classifier} {cls : ClassId} {e : Registry.Entry} {p : Plan}

theorem build_of_get? (hr : r.Built) (he : r.get? cls = some e) :
    build r classify cls = .ok (ofEntry r classify cls e) := by
  simp only [build, Registry.entry, he, hr.build_of_get? he]
  rfl

theorem build_of_new (he : r.get? cls = none) :
    build r classify cls = .error (.introspection cls.text (.unknownClass cls.text)) := by
  simp only [build, Registry.entry, Registry.className, he]
  rfl

/-- Plans made from the layouts that are kept with the classes are no others. -/
theorem make_eq_build (hr : r.Built) (classify : Classifier) (cls : ClassId) :
    make r classify cls = build r classify cls := by
  cases he : r.get? cls with
  | none =>
    rw [build_of_new he]
    simp only [make, Registry.entry, Registry.className, he]
  | some e =>
    rw [build_of_get? hr he]
    simp only [make, Registry.entry, he]

theorem build_extend (hr : r.Built) (hr' : r'.Built) (hext : r.Extends r')
    (h : build r .byFlags cls = .ok p) : build r' .byFlags cls = .ok p := by
  cases he : r.get? cls with
  | none =>
    rw [build_of_new he] at h
    cases h
  | some e =>
    rw [build_of_get? hr he] at h
    rw [build_of_get? hr' (hext cls e he), ← h]
    simp only [ofEntry, Registry.byFlags_extend hr hr' hext he]

end Plan

/-! ## One question -/

section Questions

variable {r : Registry} {classify : Classifier} {cls : ClassId} {layouts layouts' : Layouts}
  {plans plans' : Plans}

/-- A layout on demand is the one that would be worked out, and is kept. -/
theorem Layouts.get_eq (h : Assoc.Remembers r.build layouts) (cls : ClassId) :
    ∃ layouts', Assoc.Remembers r.build layouts' ∧
      layouts.get r cls = (·, layouts') <$> r.build cls := by
  unfold Layouts.get
  cases hf : Assoc.find? cls layouts with
  | some l =>
    refine ⟨layouts, h, ?_⟩
    rw [h cls l hf]
    rfl
  | none =>
    cases hb : r.build cls with
    | error e => exact ⟨layouts, h, rfl⟩
    | ok l => exact ⟨Assoc.put cls l layouts, h.put hb, rfl⟩

theorem Plan.makeWith_eq (h : Assoc.Remembers r.build layouts) (classify : Classifier)
    (cls : ClassId) : ∃ layouts', Assoc.Remembers r.build layouts' ∧
      Plan.makeWith r classify cls layouts = (·, layouts') <$> Plan.build r classify cls := by
  obtain ⟨layouts', hl, hget⟩ := Layouts.get_eq h cls
  refine ⟨layouts', hl, ?_⟩
  unfold makeWith build
  rw [hget]
  cases r.entry cls with
  | error e => rfl
  | ok e => cases r.build cls <;> rfl

/-- A plan on demand is the one that would be made, and is kept; what fails is not. -/
theorem Plans.getWith_eq (hl : Assoc.Remembers r.build layouts)
    (hp : Assoc.Remembers (Plan.build r classify) plans) (cls : ClassId) :
    ∃ layouts', Assoc.Remembers r.build layouts' ∧
      plans.getWith r classify cls layouts =
        (fun p => (p, layouts', Assoc.put cls p plans)) <$> Plan.build r classify cls := by
  unfold Plans.getWith
  cases hf : Assoc.find? cls plans with
  | some p =>
    refine ⟨layouts, hl, ?_⟩
    rw [hp cls p hf]
    show Except.ok (p, layouts, plans) = Except.ok (p, layouts, Assoc.put cls p plans)
    rw [Assoc.put_of_find? hf]
  | none =>
    obtain ⟨layouts', hl', hmake⟩ := Plan.makeWith_eq hl classify cls
    refine ⟨layouts', hl', ?_⟩
    rw [hmake]
    cases Plan.build r classify cls <;> rfl

/-- A clone that looks up a plan is told the same. -/
theorem Plans.get_eq (hr : r.Built) (hp : Assoc.Remembers (Plan.build r classify) plans)
    (cls : ClassId) : Prod.fst <$> plans.get r classify cls = Plan.build r classify cls := by
  unfold Plans.get
  cases hf : Assoc.find? cls plans with
  | some p =>
    rw [hp cls p hf]
    rfl
  | none =>
    simp only [Plan.make_eq_build hr]
    cases Plan.build r classify cls <;> rfl

end Questions

/-! ## Calls -/

namespace Workbench

variable {reg : String} {store : Nat} {w : Workbench}

/-- A call to a registry or to a store of plans. -/
inductive CacheCall where
  /-- A class is defined, or the class of an array is asked for. -/
  | extend (call : ClassCall)
  | layout (cls : ClassId)
  | fields (cls : ClassId)
  | plan (cls : ClassId)

/-- Makes a call, whatever it answers. -/
def CacheCall.make (reg : String) (store : Nat) : CacheCall → WorkM Unit
  | extend call => discard (call.make reg)
  | layout cls => discard (layoutOf reg cls)
  | fields cls => discard (fieldsOf reg cls)
  | plan cls => discard (planOf store cls)

/-- The workbench after calls, whatever they have come to. -/
def afterCacheCalls (reg : String) (store : Nat) (calls : List CacheCall) (w : Workbench) :
    Workbench :=
  calls.foldl (fun w call => after (call.make reg store) w) w

/-- A registry and a store of plans of it, by flags, where all that is kept is what would be worked
out afresh. -/
structure UpToDate (w : Workbench) (reg : String) (store : Nat) : Prop where
  built : (w.registryOf reg).Built
  there : store < w.stores.size
  registry : (w.planStore store).registry = reg
  classifier : (w.planStore store).classifier = .byFlags
  layouts : Assoc.Remembers (w.registryOf reg).build (w.layoutsOf reg)
  plans : Assoc.Remembers (Plan.build (w.registryOf reg) .byFlags) (w.planStore store).plans
  once : (Assoc.keys (w.planStore store).plans).Nodup

/-- A call answers with a result, and if that is an error, it leaves no trace. -/
def Answers {α : Type} (x : WorkM α) (w : Workbench) (result : Except Fault α) : Prop :=
  match result with
  | .ok a => ∃ w', x w = .ok a w'
  | .error e => x w = .error e w

/-! ### What a call leaves behind -/

/-- Other layouts are kept for a registry. -/
def withLayouts (reg : String) (layouts : Layouts) (w : Workbench) : Workbench :=
  { w with layouts := Assoc.put reg layouts w.layouts }

/-- Other plans are kept in a store. -/
def withPlans (store : Nat) (plans : Plans) (w : Workbench) : Workbench :=
  { w with stores := w.stores.modify store fun s => { s with plans } }

theorem layoutsOf_withLayouts (reg : String) (layouts : Layouts) (w : Workbench) :
    (w.withLayouts reg layouts).layoutsOf reg = layouts := by
  unfold layoutsOf withLayouts
  rw [Assoc.find?_put_self]
  rfl

theorem planStore_withPlans (h : store < w.stores.size) (plans : Plans) :
    (w.withPlans store plans).planStore store = { w.planStore store with plans } := by
  simp [planStore, withPlans, Array.getElem_modify, h]

theorem UpToDate.withLayouts (h : w.UpToDate reg store) {layouts : Layouts}
    (hl : Assoc.Remembers (w.registryOf reg).build layouts) :
    (w.withLayouts reg layouts).UpToDate reg store :=
  { h with layouts := (layoutsOf_withLayouts reg layouts w).symm ▸ hl }

theorem UpToDate.withPlans (h : w.UpToDate reg store) {plans : Plans}
    (hp : Assoc.Remembers (Plan.build (w.registryOf reg) .byFlags) plans)
    (hk : (Assoc.keys plans).Nodup) : (w.withPlans store plans).UpToDate reg store := by
  have hs := planStore_withPlans h.there plans
  exact
    { built := h.built
      there := by simpa [Workbench.withPlans] using h.there
      registry := by rw [hs, h.registry]
      classifier := by rw [hs, h.classifier]
      layouts := h.layouts
      plans := by rw [hs]; exact hp
      once := by rw [hs]; exact hk }

/-- Where more classes are there, what is kept is still what would be worked out. -/
theorem UpToDate.extend (h : w.UpToDate reg store) {w' : Workbench}
    (hw' : ∃ registries, w' = { w with registries }) (hr : (w'.registryOf reg).Built)
    (hext : (w.registryOf reg).Extends (w'.registryOf reg)) : w'.UpToDate reg store := by
  obtain ⟨registries, hw'⟩ := hw'
  have hstore : w'.planStore store = w.planStore store := by rw [hw']; rfl
  have hlayouts : w'.layoutsOf reg = w.layoutsOf reg := by rw [hw']; rfl
  refine ⟨hr, by rw [hw']; exact h.there, hstore ▸ h.registry, hstore ▸ h.classifier, ?_, ?_,
    hstore ▸ h.once⟩
  · rw [hlayouts]
    exact h.layouts.mono fun _ _ => Registry.build_extend h.built hr hext
  · rw [hstore]
    exact h.plans.mono fun _ _ => Plan.build_extend h.built hr hext

/-! ### What a call answers -/

theorem layoutOf_eq (h : w.UpToDate reg store) (cls : ClassId) :
    ∃ layouts, Assoc.Remembers (w.registryOf reg).build layouts ∧
      layoutOf reg cls w =
        match (w.registryOf reg).build cls with
        | .ok l => .ok l (w.withLayouts reg layouts)
        | .error e => .error (.heap e) w := by
  obtain ⟨layouts, hl, hget⟩ := Layouts.get_eq h.layouts cls
  refine ⟨layouts, hl, ?_⟩
  cases hb : (w.registryOf reg).build cls with
  | ok l =>
    rw [hb] at hget
    show (ofHeap (Layouts.get _ cls (w.layoutsOf reg)) >>= _) w = _
    rw [hget]
    rfl
  | error e =>
    rw [hb] at hget
    show (ofHeap (Layouts.get _ cls (w.layoutsOf reg)) >>= _) w = _
    rw [hget]
    rfl

theorem planOf_eq (h : w.UpToDate reg store) (cls : ClassId) :
    ∃ layouts, Assoc.Remembers (w.registryOf reg).build layouts ∧
      (∀ p, Plan.build (w.registryOf reg) .byFlags cls = .ok p → planOf store cls w =
        .ok p ((w.withLayouts reg layouts).withPlans store
          (Assoc.put cls p (w.planStore store).plans))) ∧
      ∀ e, Plan.build (w.registryOf reg) .byFlags cls = .error e → planOf store cls w =
        .error (.stop (.failed e)) w := by
  obtain ⟨layouts, hl, hget⟩ := Plans.getWith_eq h.layouts h.plans cls
  have hopen : planOf store cls w =
      (ofClone ((w.planStore store).plans.getWith (w.registryOf reg) .byFlags cls
        (w.layoutsOf reg)) >>= fun found => do
          modify fun w => (w.withLayouts reg found.2.1).withPlans store found.2.2
          pure found.1) w := by
    rw [← h.classifier, ← h.registry]
    rfl
  refine ⟨layouts, hl, fun p hb => ?_, fun e hb => ?_⟩
  · rw [hopen, hget, hb]
    rfl
  · rw [hopen, hget, hb]
    rfl

theorem answers_layoutOf (h : w.UpToDate reg store) (cls : ClassId) :
    Answers (layoutOf reg cls) w (((w.registryOf reg).build cls).mapError .heap) := by
  obtain ⟨layouts, -, heq⟩ := layoutOf_eq h cls
  unfold Answers
  rw [heq]
  cases (w.registryOf reg).build cls with
  | ok l => exact ⟨_, rfl⟩
  | error e => rfl

theorem answers_fieldsOf (h : w.UpToDate reg store) (cls : ClassId) :
    Answers (fieldsOf reg cls) w
      ((Layout.fields <$> (w.registryOf reg).build cls).mapError .heap) := by
  have hl := answers_layoutOf h cls
  unfold Answers at hl ⊢
  cases hb : (w.registryOf reg).build cls with
  | ok l =>
    rw [hb] at hl
    obtain ⟨w', hw'⟩ := hl
    exact ⟨w', by simp only [fieldsOf, Functor.map, EStateM.map, hw']⟩
  | error e =>
    rw [hb] at hl
    have hl : layoutOf reg cls w = .error (.heap e) w := hl
    show fieldsOf reg cls w = .error (.heap e) w
    simp only [fieldsOf, Functor.map, EStateM.map, hl]

theorem answers_planOf (h : w.UpToDate reg store) (cls : ClassId) :
    Answers (planOf store cls) w
      ((Plan.build (w.registryOf reg) .byFlags cls).mapError fun e => .stop (.failed e)) := by
  obtain ⟨layouts, -, hok, herror⟩ := planOf_eq h cls
  cases hb : Plan.build (w.registryOf reg) .byFlags cls with
  | ok p => exact ⟨_, hok p hb⟩
  | error e => exact herror e hb

/-! ### A call and what comes after it -/

/-- A call asks for the plan of a class. -/
def CacheCall.Asks (cls : ClassId) : CacheCall → Prop
  | plan asked => asked = cls
  | _ => False

/-- A step from a workbench to a later one by a call. -/
structure CacheStep (call : CacheCall) (reg : String) (store : Nat) (w w' : Workbench) : Prop where
  upToDate : w'.UpToDate reg store
  grown : (w.registryOf reg).Extends (w'.registryOf reg)
  /-- A plan is kept if it was, or if it is asked for and the class is there. -/
  keys : ∀ cls, cls ∈ Assoc.keys (w'.planStore store).plans ↔
    cls ∈ Assoc.keys (w.planStore store).plans ∨ call.Asks cls ∧ cls < (w.registryOf reg).size

/-- A call for a class touches no part of the workbench but the registry it goes to. -/
theorem after_make_eq (reg : String) (w : Workbench) (call : ClassCall) :
    ∃ registries, after (call.make reg) w = { w with registries } ∧
      ∀ other, other ≠ reg → Assoc.find? other registries = Assoc.find? other w.registries := by
  have put : ∀ r : Registry, ∃ registries,
      { w with registries := Assoc.put reg r w.registries } = { w with registries } ∧
        ∀ other, other ≠ reg →
          Assoc.find? other registries = Assoc.find? other w.registries :=
    fun r => ⟨_, rfl, fun _ hne => Assoc.find?_put_of_ne (Ne.symm hne) r w.registries⟩
  refine ends_after (P := fun w' : Workbench => ∃ registries, w' = { w with registries } ∧
    ∀ other, other ≠ reg → Assoc.find? other registries = Assoc.find? other w.registries) ?_
  cases call with
  | define d =>
    simp only [ClassCall.make, Workbench.define, setRegistry, ends_bind, ends_registry, ends_ofHeap,
      ends_modify, ends_pure]
    cases (w.registryOf reg).define d with
    | ok result => exact put result.2
    | error e => exact ⟨w.registries, rfl, fun _ _ => rfl⟩
  | arrayOf component =>
    simp only [ClassCall.make, Workbench.arrayOf, setRegistry, ends_bind, ends_registry,
      ends_ofHeap, ends_modify, ends_pure]
    cases (w.registryOf reg).arrayOf component with
    | ok result => exact put result.2
    | error e => exact ⟨w.registries, rfl, fun _ _ => rfl⟩

theorem CacheStep.extended (h : w.UpToDate reg store) (call : ClassCall) :
    CacheStep (.extend call) reg store w (after (call.make reg) w) := by
  obtain ⟨hbuilt, hext⟩ := @after_make reg w call
  obtain ⟨registries, heq, -⟩ := after_make_eq reg w call
  refine ⟨h.extend ⟨registries, heq⟩ (hbuilt h.built) hext, hext, fun cls => ?_⟩
  have hstore : (after (call.make reg) w).planStore store = w.planStore store := by rw [heq]; rfl
  rw [hstore]
  exact ⟨Or.inl, fun hk => hk.resolve_right fun hn => hn.1⟩

theorem CacheStep.askedLayout (h : w.UpToDate reg store) {call : CacheCall}
    (hcall : ∀ cls, ¬ call.Asks cls) (cls : ClassId) :
    CacheStep call reg store w (after (layoutOf reg cls) w) := by
  have same : ∀ {w' : Workbench}, w'.UpToDate reg store → w'.registryOf reg = w.registryOf reg →
      w'.planStore store = w.planStore store → CacheStep call reg store w w' := by
    intro w' hw' hreg hstore
    refine ⟨hw', hreg ▸ Registry.Extends.refl _, fun cls => ?_⟩
    rw [hstore]
    exact ⟨Or.inl, fun hk => hk.resolve_right fun hn => hcall cls hn.1⟩
  obtain ⟨layouts, hl, heq⟩ := layoutOf_eq h cls
  unfold after
  rw [heq]
  cases (w.registryOf reg).build cls with
  | ok l => exact same (h.withLayouts hl) rfl rfl
  | error e => exact same h rfl rfl

theorem CacheStep.askedPlan (h : w.UpToDate reg store) (cls : ClassId) :
    CacheStep (.plan cls) reg store w (after (planOf store cls) w) := by
  obtain ⟨layouts, hl, hok, herror⟩ := planOf_eq h cls
  unfold after
  cases he : (w.registryOf reg).get? cls with
  | none =>
    rw [herror _ (Plan.build_of_new he)]
    refine ⟨h, Registry.Extends.refl _, fun cls' => ⟨Or.inl, ?_⟩⟩
    rintro (hk | ⟨rfl, hlt⟩)
    · exact hk
    · exact absurd (Array.getElem?_eq_none_iff.mp he) (Nat.not_le_of_lt hlt)
  | some e =>
    have hb : Plan.build (w.registryOf reg) .byFlags cls = .ok _ := Plan.build_of_get? h.built he
    rw [hok _ hb]
    refine ⟨(h.withLayouts hl).withPlans (h.plans.put hb) (Assoc.nodup_keys_put h.once),
      Registry.Extends.refl _, fun cls' => ?_⟩
    rw [planStore_withPlans (h.withLayouts hl).there]
    simp only [Assoc.keys_put, CacheCall.Asks]
    constructor
    · intro hk
      split at hk
      · exact Or.inl hk
      · rcases List.mem_append.mp hk with hk | hk
        · exact Or.inl hk
        · rw [List.mem_singleton.mp hk]
          exact Or.inr ⟨rfl, Registry.lt_size_of_get? he⟩
    · intro hk
      split
      · rename_i hin
        rcases hk with hk | ⟨rfl, -⟩
        · exact hk
        · exact hin
      · rcases hk with hk | ⟨rfl, -⟩
        · exact List.mem_append_left _ hk
        · exact List.mem_append_right _ List.mem_cons_self

theorem after_map {ε σ α β : Type} (f : α → β) (x : EStateM ε σ α) (st : σ) :
    after (f <$> x) st = after x st := by
  unfold after
  simp only [Functor.map, EStateM.map]
  cases x st <;> rfl

theorem after_discard {ε σ α : Type} (x : EStateM ε σ α) (st : σ) :
    after (discard x) st = after x st := after_map _ x st

/-- Every call keeps up to date what is kept. -/
theorem cacheStep (h : w.UpToDate reg store) (call : CacheCall) :
    CacheStep call reg store w (after (call.make reg store) w) := by
  cases call with
  | extend call =>
    rw [CacheCall.make, after_discard]
    exact .extended h call
  | layout cls =>
    rw [CacheCall.make, after_discard]
    exact .askedLayout h (fun _ => id) cls
  | fields cls =>
    rw [CacheCall.make, after_discard, fieldsOf, after_map]
    exact .askedLayout h (fun _ => id) cls
  | plan cls =>
    rw [CacheCall.make, after_discard]
    exact .askedPlan h cls

theorem upToDate_afterCacheCalls (h : w.UpToDate reg store) (calls : List CacheCall) :
    (w.afterCacheCalls reg store calls).UpToDate reg store ∧
      (w.registryOf reg).Extends ((w.afterCacheCalls reg store calls).registryOf reg) := by
  induction calls generalizing w with
  | nil => exact ⟨h, Registry.Extends.refl _⟩
  | cons call calls ih =>
    have hstep := cacheStep h call
    obtain ⟨hup, hext⟩ := ih hstep.upToDate
    exact ⟨hup, hstep.grown.trans hext⟩

/-- Among the calls is one for the plan of a class that is registered by then. -/
def Answered (reg : String) (store : Nat) (calls : List CacheCall) (w : Workbench) (cls : ClassId) :
    Prop :=
  ∃ before rest, calls = before ++ .plan cls :: rest ∧
    cls < ((w.afterCacheCalls reg store before).registryOf reg).size

theorem answered_cons {call : CacheCall} {calls : List CacheCall} {cls : ClassId} :
    w.Answered reg store (call :: calls) cls ↔
      (call.Asks cls ∧ cls < (w.registryOf reg).size) ∨
        (after (call.make reg store) w).Answered reg store calls cls := by
  constructor
  · rintro ⟨before, rest, heq, hlt⟩
    cases before with
    | nil =>
      obtain ⟨rfl, -⟩ := List.cons.inj heq
      exact Or.inl ⟨rfl, hlt⟩
    | cons first before =>
      obtain ⟨rfl, hrest⟩ := List.cons.inj heq
      exact Or.inr ⟨before, rest, hrest, hlt⟩
  · rintro (⟨hask, hlt⟩ | ⟨before, rest, rfl, hlt⟩)
    · cases call with
      | plan asked =>
        cases hask
        exact ⟨[], calls, rfl, hlt⟩
      | _ => exact hask.elim
    · exact ⟨call :: before, rest, rfl, hlt⟩

/-- The plans that are kept are those that were answered. -/
theorem mem_keys_afterCacheCalls (h : w.UpToDate reg store) (calls : List CacheCall)
    (cls : ClassId) :
    cls ∈ Assoc.keys ((w.afterCacheCalls reg store calls).planStore store).plans ↔
      cls ∈ Assoc.keys (w.planStore store).plans ∨ w.Answered reg store calls cls := by
  induction calls generalizing w with
  | nil =>
    refine ⟨Or.inl, fun hk => hk.resolve_right ?_⟩
    rintro ⟨before, rest, heq, -⟩
    cases before <;> cases heq
  | cons call calls ih =>
    have hstep := cacheStep h call
    rw [answered_cons, ← or_assoc, ← hstep.keys cls]
    exact ih hstep.upToDate

/-! ### The law of the caches -/

/-- Nobody can tell that layouts and plans are kept. -/
structure CachesHidden (w : Workbench) (reg : String) (store : Nat) : Prop where
  layouts : ∀ cls, Answers (layoutOf reg cls) w (((w.registryOf reg).build cls).mapError .heap)
  fields : ∀ cls, Answers (fieldsOf reg cls) w
    ((Layout.fields <$> (w.registryOf reg).build cls).mapError .heap)
  plans : ∀ cls, Answers (planOf store cls) w
    ((Plan.build (w.registryOf reg) .byFlags cls).mapError fun e => .stop (.failed e))
  /-- A plan is refused exactly when the class is not there. -/
  known : ∀ cls, cls < (w.registryOf reg).size ↔ ∃ p w', planOf store cls w = .ok p w'
  unknown : ∀ cls : ClassId, (w.registryOf reg).size ≤ cls ↔ planOf store cls w =
    .error (.stop (.failed (.introspection cls.text (.unknownClass cls.text)))) w
  /-- A plan stays the answer, whatever is done. -/
  lasting : ∀ cls p w₁, planOf store cls w = .ok p w₁ →
    ∀ calls, ∃ w₂, planOf store cls (w₁.afterCacheCalls reg store calls) = .ok p w₂
  /-- There is one plan for each class that has any. -/
  once : (Assoc.keys (w.planStore store).plans).Nodup
  /-- The layouts that come with the classes and the plans that clones look up are the same. -/
  stored : ∀ cls, (w.registryOf reg).layout cls = (w.registryOf reg).build cls
  looked : ∀ cls, Prod.fst <$> (w.planStore store).plans.get (w.registryOf reg) .byFlags cls =
    Plan.build (w.registryOf reg) .byFlags cls

theorem exists_planOf (h : w.UpToDate reg store) {cls : ClassId} {p : Plan}
    (hb : Plan.build (w.registryOf reg) .byFlags cls = .ok p) :
    ∃ w', planOf store cls w = .ok p w' := by
  have hans := answers_planOf h cls
  rw [hb] at hans
  exact hans

theorem planOf_of_new (h : w.UpToDate reg store) {cls : ClassId}
    (hnew : (w.registryOf reg).get? cls = none) : planOf store cls w =
      .error (.stop (.failed (.introspection cls.text (.unknownClass cls.text)))) w := by
  have hans := answers_planOf h cls
  rw [Plan.build_of_new hnew] at hans
  exact hans

theorem build_of_planOf (h : w.UpToDate reg store) {cls : ClassId} {p : Plan} {w' : Workbench}
    (hp : planOf store cls w = .ok p w') : Plan.build (w.registryOf reg) .byFlags cls = .ok p := by
  obtain ⟨layouts, -, hok, herror⟩ := planOf_eq h cls
  cases hb : Plan.build (w.registryOf reg) .byFlags cls with
  | ok q =>
    cases hp.symm.trans (hok q hb)
    rfl
  | error e => cases hp.symm.trans (herror e hb)

theorem UpToDate.hidden (h : w.UpToDate reg store) : w.CachesHidden reg store where
  layouts := answers_layoutOf h
  fields := answers_fieldsOf h
  plans := answers_planOf h
  known := by
    intro cls
    constructor
    · intro hlt
      exact ⟨_, exists_planOf h (Plan.build_of_get? h.built (Array.getElem?_eq_getElem hlt))⟩
    · rintro ⟨p, w', hp⟩
      by_contra hge
      rw [planOf_of_new h (Array.getElem?_eq_none (Nat.not_lt.mp hge))] at hp
      cases hp
  unknown := by
    intro cls
    refine ⟨fun hge => planOf_of_new h (Array.getElem?_eq_none hge), fun hp => ?_⟩
    by_contra hlt
    have he := Array.getElem?_eq_getElem (Nat.not_le.mp hlt)
    obtain ⟨w', hw'⟩ := exists_planOf h (Plan.build_of_get? h.built he)
    rw [hw'] at hp
    cases hp
  lasting := by
    intro cls p w₁ hp calls
    have hw₁ : w₁ = after (CacheCall.make reg store (.plan cls)) w := by
      rw [CacheCall.make, after_discard, after, hp]
    have hstep := cacheStep h (.plan cls)
    obtain ⟨hup, hext⟩ := upToDate_afterCacheCalls hstep.upToDate calls
    have hb := Plan.build_extend h.built hup.built (hstep.grown.trans hext) (build_of_planOf h hp)
    rw [hw₁]
    exact exists_planOf hup hb
  once := h.once
  stored := h.built.layout_eq_build
  looked := Plans.get_eq h.built h.plans

/-- A new store of plans over a registry that nobody has asked for layouts: whatever classes are
defined and whatever is asked, also of classes that are not there yet, all answers are what would be
worked out at that moment, a refusal leaves no trace, a plan stays for ever, and the plans that are
kept are those of the classes that were answered. -/
theorem caches_do_not_show (hr : (w.registryOf reg).Built)
    (hs : w.stores[store]? = some { registry := reg }) (hl : w.layoutsOf reg = [])
    (calls : List CacheCall) :
    (w.afterCacheCalls reg store calls).CachesHidden reg store ∧
      ∀ cls, cls ∈ Assoc.keys ((w.afterCacheCalls reg store calls).planStore store).plans ↔
        w.Answered reg store calls cls := by
  have hstore : w.planStore store = { registry := reg } := by
    rw [planStore, hs]
    rfl
  have hup : w.UpToDate reg store :=
    { built := hr
      there := (Array.getElem?_eq_some_iff.mp hs).1
      registry := by rw [hstore]
      classifier := by rw [hstore]
      layouts := hl ▸ Assoc.remembers_nil _
      plans := hstore ▸ Assoc.remembers_nil _
      once := hstore ▸ List.nodup_nil }
  refine ⟨(upToDate_afterCacheCalls hup calls).1.hidden, fun cls => ?_⟩
  rw [mem_keys_afterCacheCalls hup, hstore]
  simp [Assoc.keys]

/-- Questions about two classes, before and after they are there. -/
def earlyQuestions : List CacheCall :=
  [ .plan 12, .layout 13,
    .extend (.define
      { name := "Frozen", flags := { immutable := true, immutableSubclasses := true }
        fields := [{ name := "on", type := .primitive .bool }] }),
    .fields 12, .plan 12, .plan 13,
    .extend (.define
      { name := "Child", superclass := some 12
        fields := [{ name := "size", type := .primitive .i32 }] }),
    .plan 13, .layout 13, .plan 12 ]

/-- The refused questions about both classes leave no trace, and the subclass, defined after the
plan of its superclass was made, gets its layout and its classification from it. -/
theorem early_questions_do_not_show :
    let bench : Workbench := { stores := #[{ registry := "main" }] }
    let later := bench.afterCacheCalls "main" 0 earlyQuestions
    (bench.registryOf "main").Built ∧ bench.stores[0]? = some { registry := "main" } ∧
      bench.layoutsOf "main" = [] ∧ later.CachesHidden "main" 0 ∧
      (later.planStore 0).plans.map (fun p => (p.1, p.2.classification, p.2.blockSize)) =
        [(12, .immutable, 1), (13, .immutable, 8)] ∧
      bench.Answered "main" 0 earlyQuestions 13 := by
  intro bench later
  obtain ⟨hhidden, hkeys⟩ :=
    @caches_do_not_show "main" 0 bench .initial rfl rfl earlyQuestions
  have hplans : (later.planStore 0).plans.map (fun p => (p.1, p.2.classification, p.2.blockSize)) =
      [(12, .immutable, 1), (13, .immutable, 8)] := by decide +kernel
  refine ⟨.initial, rfl, rfl, hhidden, hplans, (hkeys 13).mp ?_⟩
  have hfst := congrArg (List.map Prod.fst) hplans
  rw [List.map_map] at hfst
  show 13 ∈ List.map Prod.fst (later.planStore 0).plans
  rw [show List.map Prod.fst (later.planStore 0).plans = [12, 13] from hfst]
  exact List.mem_cons_of_mem _ List.mem_cons_self

end Workbench

end DeepCopy

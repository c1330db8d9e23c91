-- Whole runs. Whatever is done to a workbench with one registry, in any order
-- and with any outcome, every object fits its class at every point. The cloners
-- are those whose work no routine and no self-copy method takes part in.
import DeepCopy.Proofs.Untouched
import DeepCopy.Proofs.WellFormedClones

namespace DeepCopy

/-! ## Allocators -/

namespace Allocator

variable {r : Registry} {m : Memory}

/-- Work on the heap that keeps it well-formed, however it ends, and lets go of nothing. -/
def Sustains {α : Type} (r : Registry) (x : MemoryM HeapError α) (m : Memory) : Prop :=
  Ends x m (fun _ m' => m'.heap.WellFormed r ∧ Spared (fun _ => True) m.heap m'.heap)
    (fun _ m' => m'.heap.WellFormed r ∧ Spared (fun _ => True) m.heap m'.heap)

theorem Sustains.bind {α β : Type} {x : MemoryM HeapError β} {f : β → MemoryM HeapError α}
    (hx : Sustains r x m)
    (hf : ∀ b m', m'.heap.WellFormed r → Spared (fun _ => True) m.heap m'.heap →
      Sustains r (f b) m') : Sustains r (x >>= f) m := by
  unfold Sustains
  rw [ends_bind]
  refine ends_mono hx ?_ (fun _ _ h => h)
  rintro b m' ⟨hw, hs⟩
  exact ends_mono (hf b m' hw hs) (fun _ _ h => ⟨h.1, hs.trans h.2⟩)
    (fun _ _ h => ⟨h.1, hs.trans h.2⟩)

theorem sustains_pure {α : Type} (hw : m.heap.WellFormed r) (a : α) :
    Sustains r (pure a) m := ⟨hw, Spared.refl _⟩

theorem sustains_creating {x : MemoryM HeapError ObjectId} {cls : ClassId}
    (hw : m.heap.WellFormed r) (h : Ends x m (Creates r cls m) (fun _ m' => m' = m)) :
    Sustains r x m := by
  refine ends_mono h ?_ ?_
  · intro o m' hc
    exact ⟨hc.wellFormed, hc.spared⟩
  · rintro _ _ rfl
    exact ⟨hw, Spared.refl _⟩

theorem sustains_update {change : Heap → Except HeapError Write} (hw : m.heap.WellFormed r)
    (h : ∀ w, change m.heap = .ok w → (m.heap.write w).WellFormed r) :
    Sustains r (Memory.update change) m := by
  unfold Sustains
  rw [ends_memory_update]
  cases hc : change m.heap with
  | ok w => exact ⟨h w hc, Spared.of_touched (Or.inr ⟨w.body, rfl⟩) trivial⟩
  | error e => exact ⟨hw, Spared.refl _⟩

theorem wellFormed_setField (hr : r.Sound) {h : Heap} (hw : h.WellFormed r) {o : ObjectId}
    {name : String} {v : Value} (hv : h.Has v) {w : Write}
    (hs : r.setField h o name v = .ok w) : (h.write w).WellFormed r := by
  obtain ⟨f, hf, hs⟩ := Registry.exists_set_of_setField hs
  exact wellFormed_set hr hw hf hv hs

theorem sustains_setFields (hr : r.Sound) (hw : m.heap.WellFormed r) (o : ObjectId)
    {fields : List (String × Value)} (hf : ∀ e ∈ fields, m.heap.Has e.2) :
    Sustains r (setFields r o fields) m := by
  induction fields generalizing m with
  | nil => exact sustains_pure hw ()
  | cons e fields ih =>
    obtain ⟨name, v⟩ := e
    have hv : m.heap.Has v := hf (name, v) List.mem_cons_self
    refine Sustains.bind (sustains_update hw fun w hs => wellFormed_setField hr hw hv hs)
      fun _ m' hw' hs => ?_
    exact ih hw' fun e he => (hf e (List.mem_cons_of_mem _ he)).grow hs

theorem sustains_instantiate (hr : r.Sound) (hw : m.heap.WellFormed r) (cls : ClassId)
    {fields : List (String × Value)} (hf : ∀ e ∈ fields, m.heap.Has e.2) :
    Sustains r (instantiate r cls fields) m := by
  unfold instantiate
  refine Sustains.bind (sustains_creating hw (creates_allocate hr hw cls)) fun o m' hw' hs => ?_
  refine Sustains.bind (sustains_setFields hr hw' o fun e he => (hf e he).grow hs)
    fun _ m'' hw'' _ => ?_
  exact sustains_pure hw'' o

theorem sustains_setElements (hw : m.heap.WellFormed r) (o : ObjectId) (index : Nat)
    {items : List Value} (hi : ∀ v ∈ items, m.heap.Has v) :
    Sustains r (setElements o index items) m := by
  induction items generalizing m index with
  | nil => exact sustains_pure hw ()
  | cons v items ih =>
    refine Sustains.bind (sustains_update hw fun w hs =>
      wellFormed_setElement hw (hi v List.mem_cons_self) hs) fun _ m' hw' hs => ?_
    exact ih hw' (index + 1) fun w hwm => (hi w (List.mem_cons_of_mem _ hwm)).grow hs

theorem sustains_fillArray (hw : m.heap.WellFormed r) (cls : ClassId) {items : List Value}
    (hi : ∀ v ∈ items, m.heap.Has v) : Sustains r (fillArray r cls items) m := by
  unfold fillArray
  refine Sustains.bind (sustains_creating hw (creates_allocateArray hw cls items.length))
    fun o m' hw' hs => ?_
  refine Sustains.bind (sustains_setElements hw' o 0 fun v hv => (hi v hv).grow hs)
    fun _ m'' hw'' _ => ?_
  exact sustains_pure hw'' o

theorem sustains_newContainer (hr : r.Sound) (hw : m.heap.WellFormed r) {contents : Container}
    (hc : ∀ v ∈ contents.values, m.heap.Has v) : Sustains r (newContainer contents) m := by
  obtain ⟨e, he, hk⟩ := hr.containers contents.kind
  have hcr : Ends (newContainer contents : MemoryM HeapError ObjectId) m
      (Creates r (Registry.containerClass contents.kind) m) (fun _ m' => m' = m) :=
    creates_of_fits hw he (Registry.Entry.fits_container.mpr hk) hc
  exact sustains_creating hw hcr

end Allocator

namespace Workbench

@[simp] theorem ends_ofHeap {α : Type} {x : Except HeapError α} {w : Workbench}
    {Q : α → Workbench → Prop} {E : Fault → Workbench → Prop} :
    Ends (ofHeap x) w Q E ↔
      match x with
      | .ok a => Q a w
      | .error e => E (.heap e) w := by
  cases x <;> rfl

@[simp] theorem ends_registry {reg : String} {w : Workbench} {Q : Registry → Workbench → Prop}
    {E : Fault → Workbench → Prop} :
    Ends (registry reg) w Q E ↔ Q (w.registryOf reg) w := Iff.rfl

/-! ## What can be done -/

/-- What can be done to a workbench with one registry. -/
inductive Action where
  | define (d : ClassDecl)
  | arrayOf (component : Component)
  | allocate (cls : ClassId)
  | allocateArray (cls : ClassId) (length : Nat)
  | instantiate (cls : ClassId) (fields : List (String × Value))
  | newArray (component : Component) (items : List Value)
  | newContainer (contents : Container)
  | setField (o : ObjectId) (name : String) (v : Value)
  | setElement (o : ObjectId) (index : Nat) (v : Value)
  | push (o : ObjectId) (items : List Value)
  | setContents (o : ObjectId) (c : Container)
  | addStore (classifier : Classifier)
  | addPortable
  | keepCloner (name : String) (c : Cloner)
  | clone (name : String) (v : Value)
  | shallow (name : String) (o : ObjectId)
  | copyInto (name : String) (source target : ObjectId)

/-- Does it. What it answers does not matter here. -/
def Action.perform (reg : String) : Action → WorkM Unit
  | define d => discard (Workbench.define reg d)
  | arrayOf component => discard (Workbench.arrayOf reg component)
  | allocate cls => do discard (allocating reg (Allocator.allocate (← registry reg) cls))
  | allocateArray cls length => do
    discard (allocating reg (Allocator.allocateArray (← registry reg) cls length))
  | instantiate cls fields => do
    discard (allocating reg (Allocator.instantiate (← registry reg) cls fields))
  | newArray component items => discard (Workbench.newArray reg component items)
  | newContainer contents => discard (allocating reg (Allocator.newContainer contents))
  | setField o name v => do
    let r ← registry reg
    updateHeap fun h => r.setField h o name v
  | setElement o index v => updateHeap fun h => h.setElement o index v
  | push o items => discard (Workbench.push o items)
  | setContents o c => updateHeap fun h => h.setContents o c
  | addStore classifier => discard (Workbench.addStore reg classifier)
  | addPortable => discard (Workbench.addPortable reg)
  | keepCloner name c => setCloner name c
  | clone name v => discard (operate name fun s => s.clone v)
  | shallow name o => discard (operate name fun s => s.shallow o)
  | copyInto name source target => operate name fun s => s.copyInto source target

/-- A cloner for the registry, by any backend, that uses no routine but the one that rebuilds
containers. -/
structure Serves (w : Workbench) (reg : String) (c : Cloner) : Prop where
  store_lt : c.store < w.stores.size
  store_registry : (w.planStore c.store).registry = reg
  portable : ∀ i, c.portable = some i →
    i < w.portables.size ∧ (w.portableStore i).registry = reg
  overrides : ∀ cls i, c.policy.override? cls = some i → i = .containers
  resolved : ∀ cls i, Assoc.find? cls c.resolved = some i → i = .containers

/-- The cloner of a name uses no self-copy method. -/
def CopiesByItself (w : Workbench) (reg name : String) : Prop :=
  ∀ c, Assoc.find? name w.cloners = some c → c.policy.flags.useSelfCopy = true →
    ∀ cls e, (w.registryOf reg).get? cls = some e → e.decl.selfCopy = none

/-- What may be done: all that is handed in is there, contents stay of their kind, and the cloners
are those that serve. -/
def Action.Allowed (reg : String) (w : Workbench) : Action → Prop
  | instantiate _ fields => ∀ e ∈ fields, w.heap.Has e.2
  | newArray _ items => ∀ v ∈ items, w.heap.Has v
  | newContainer contents => ∀ v ∈ contents.values, w.heap.Has v
  | setField _ _ v => w.heap.Has v
  | setElement _ _ v => w.heap.Has v
  | push _ items => ∀ v ∈ items, w.heap.Has v
  | setContents o c => (∀ v ∈ c.values, w.heap.Has v) ∧
    ∀ old, w.heap.contents? o = some old → c.kind = old.kind
  | keepCloner _ c => w.Serves reg c
  | clone name v => w.heap.Has v ∧ w.CopiesByItself reg name
  | shallow name o => o < w.heap.size ∧ w.CopiesByItself reg name
  | copyInto name source target =>
    source < w.heap.size ∧ target < w.heap.size ∧ w.CopiesByItself reg name
  | _ => True

/-! ## What a run keeps -/

/-- Everything on a workbench is in order: the registry, the heap, the plans that were kept, the
catalog and the cloners. -/
structure InOrder (reg : String) (w : Workbench) : Prop where
  registry : (w.registryOf reg).Sound
  heap : w.heap.WellFormed (w.registryOf reg)
  plans : ∀ i, (w.planStore i).registry = reg →
    Plans.Fit (w.registryOf reg) (w.planStore i).plans
  catalog : ∀ name maker, Assoc.find? name w.catalog = some maker →
    maker.implementor = .containers
  cloners : ∀ name c, Assoc.find? name w.cloners = some c → w.Serves reg c

theorem registryOf_put (reg : String) (r : Registry) (w : Workbench) :
    registryOf { w with registries := Assoc.put reg r w.registries } reg = r := by
  unfold registryOf
  rw [Assoc.find?_put_self]
  rfl

namespace InOrder

variable {reg : String} {w w' : Workbench}

theorem fresh (reg : String) (rawAccess : Bool) : InOrder reg { rawAccess } := by
  refine ⟨Registry.sound_initial, ?_, ?_, ?_, ?_⟩
  · intro o ho
    exact absurd ho (Nat.not_lt_zero o)
  · intro i _
    have : (planStore { rawAccess } i).plans = [] := by
      cases i <;> rfl
    rw [this]
    exact Plans.fit_nil _
  · intro name maker hm
    exact Catalog.initial_maker hm
  · intro name c hc
    cases hc

/-- A larger registry takes the place of the old one. -/
theorem setRegistry (h : InOrder reg w) {r : Registry} (hext : (w.registryOf reg).Extends r)
    (hr : r.Sound) : InOrder reg { w with registries := Assoc.put reg r w.registries } := by
  have hreg := registryOf_put reg r w
  refine ⟨hreg.symm ▸ hr, hreg.symm ▸ h.heap.extend hext, ?_, h.catalog, ?_⟩
  · intro i hi
    rw [hreg]
    intro cls p hp
    obtain ⟨e, he, hd⟩ := h.plans i hi cls p hp
    exact ⟨e, hext cls e he, hd⟩
  · intro name c hc
    exact ⟨(h.cloners name c hc).store_lt, (h.cloners name c hc).store_registry,
      (h.cloners name c hc).portable, (h.cloners name c hc).overrides,
      (h.cloners name c hc).resolved⟩

/-- Another heap takes the place of the old one. -/
theorem setHeap (h : InOrder reg w) {heap : Heap} (hw : heap.WellFormed (w.registryOf reg))
    (allocators : Assoc String Tally) : InOrder reg { w with heap, allocators } :=
  ⟨h.registry, hw, h.plans, h.catalog, fun name c hc =>
    ⟨(h.cloners name c hc).store_lt, (h.cloners name c hc).store_registry,
      (h.cloners name c hc).portable, (h.cloners name c hc).overrides,
      (h.cloners name c hc).resolved⟩⟩

/-- What a cloner uses is there however much is added. -/
theorem serves_mono {c : Cloner} (h : w.Serves reg c)
    (hs : ∀ i < w.stores.size, i < w'.stores.size ∧
      (w'.planStore i).registry = (w.planStore i).registry)
    (hp : ∀ i < w.portables.size, i < w'.portables.size ∧
      (w'.portableStore i).registry = (w.portableStore i).registry) : w'.Serves reg c := by
  obtain ⟨hlt, hreg⟩ := hs c.store h.store_lt
  refine ⟨hlt, hreg.trans h.store_registry, ?_, h.overrides, h.resolved⟩
  intro i hi
  obtain ⟨hi, hr⟩ := h.portable i hi
  exact ⟨(hp i hi).1, (hp i hi).2.trans hr⟩

theorem addStore (h : InOrder reg w) (classifier : Classifier) :
    InOrder reg { w with stores := w.stores.push { registry := reg, classifier } } := by
  have hold : ∀ i < w.stores.size,
      planStore { w with stores := w.stores.push { registry := reg, classifier } } i =
        w.planStore i := by
    intro i hi
    unfold planStore
    simp [Array.getElem?_push, Nat.ne_of_lt hi]
  refine ⟨h.registry, h.heap, ?_, h.catalog, ?_⟩
  · intro i hi
    by_cases hlt : i < w.stores.size
    · rw [hold i hlt] at hi ⊢
      exact h.plans i hi
    · have hnil : (planStore
          { w with stores := w.stores.push { registry := reg, classifier } } i).plans = [] := by
        unfold planStore
        simp only [Array.getElem?_push]
        split
        · rfl
        · rw [Array.getElem?_eq_none (Nat.not_lt.mp hlt)]
          rfl
      rw [hnil]
      exact Plans.fit_nil _
  · intro name c hc
    refine serves_mono (h.cloners name c hc) ?_ fun i hi => ⟨hi, rfl⟩
    intro i hi
    refine ⟨?_, congrArg _ (hold i hi)⟩
    simp only [Array.size_push]
    exact Nat.lt_succ_of_lt hi

theorem addPortable (h : InOrder reg w) :
    InOrder reg { w with portables := w.portables.push { registry := reg } } := by
  refine ⟨h.registry, h.heap, h.plans, h.catalog, ?_⟩
  intro name c hc
  refine serves_mono (h.cloners name c hc) (fun i hi => ⟨hi, rfl⟩) ?_
  intro i hi
  refine ⟨?_, ?_⟩
  · simp only [Array.size_push]
    exact Nat.lt_succ_of_lt hi
  · unfold portableStore
    simp [Array.getElem?_push, Nat.ne_of_lt hi]

theorem setCloner (h : InOrder reg w) (name : String) {c : Cloner} (hc : w.Serves reg c) :
    InOrder reg { w with cloners := Assoc.put name c w.cloners } := by
  refine ⟨h.registry, h.heap, h.plans, h.catalog, ?_⟩
  intro name' c' hc'
  refine serves_mono (w := w) ?_ (fun i hi => ⟨hi, rfl⟩) (fun i hi => ⟨hi, rfl⟩)
  rw [Assoc.find?_put] at hc'
  split at hc'
  · cases hc'
    exact hc
  · exact h.cloners name' c' hc'

/-! ## Cloners at work -/

variable {name : String} {c : Cloner}

theorem registry_setting (hs : w.Serves reg c) : (w.setting c).registry = w.registryOf reg := by
  show w.registryOf (w.planStore c.store).registry = w.registryOf reg
  rw [hs.store_registry]

theorem plain (h : InOrder reg w) (hc : Assoc.find? name w.cloners = some c)
    (hself : w.CopiesByItself reg name) : (w.setting c).Plain := by
  have hs := h.cloners name c hc
  have hreg := registry_setting hs
  refine ⟨?_, ?_, fun _ => hs.overrides, ?_, ?_⟩
  · rw [hreg]
    show (w.backendOf c.portable).Over (w.registryOf reg)
    cases hp : c.portable with
    | none => exact Or.inl rfl
    | some i =>
      apply Or.inr
      show Backend.portable (w.registryOf (w.portableStore i).registry) = _
      rw [(hs.portable i hp).2]
  · rw [hreg]
    exact h.registry
  · intro _ _ n maker _ _ hm
    exact h.catalog n maker hm
  · rw [hreg]
    exact hself c hc

theorem lawful (h : InOrder reg w) (hc : Assoc.find? name w.cloners = some c) :
    Lawful (w.setting c) (w.start c) := by
  have hs := h.cloners name c hc
  refine ⟨?_, ?_, hs.resolved, ?_⟩
  · rw [registry_setting hs]
    exact h.heap
  · rw [registry_setting hs]
    exact h.plans c.store hs.store_registry
  · intro o v hv
    cases (Copies.find?_empty o).symm.trans hv

theorem planStore_keepRun (name : String) (c : Cloner) (run : Run) (w : Workbench) (i : Nat) :
    (Workbench.keepRun name c run w).planStore i =
      if i = c.store ∧ i < w.stores.size then { w.planStore i with plans := run.plans }
      else w.planStore i := by
  have hst : (Workbench.keepRun name c run w).stores =
      w.stores.modify c.store fun s => { s with plans := run.plans } := by
    unfold Workbench.keepRun keepMemory
    cases c.portable <;> rfl
  unfold planStore
  rw [hst, Array.getElem?_modify]
  by_cases hi : i < w.stores.size
  · rw [Array.getElem?_eq_getElem hi]
    by_cases heq : i = c.store
    · subst heq
      simp [hi]
    · simp [heq, Ne.symm heq]
  · rw [Array.getElem?_eq_none (Nat.not_lt.mp hi)]
    simp [hi]

theorem keepRun (h : InOrder reg w) (hc : Assoc.find? name w.cloners = some c) {run : Run}
    (hl : Lawful (w.setting c) run) : InOrder reg (Workbench.keepRun name c run w) := by
  have hs := h.cloners name c hc
  have hreg : (Workbench.keepRun name c run w).registryOf reg = w.registryOf reg := by
    unfold registryOf
    rw [registries_keepRun]
  have hplans : ∀ i, ((Workbench.keepRun name c run w).planStore i).registry =
      (w.planStore i).registry := by
    intro i
    rw [planStore_keepRun]
    split <;> rfl
  have hrun : ∀ {c' : Cloner}, w.Serves reg c' →
      (Workbench.keepRun name c run w).Serves reg c' := by
    intro c' hs'
    refine serves_mono hs' ?_ ?_
    · intro i hi
      refine ⟨?_, hplans i⟩
      unfold Workbench.keepRun keepMemory
      cases c.portable <;> simpa using hi
    · intro i hi
      unfold Workbench.keepRun keepMemory
      cases c.portable with
      | none => exact ⟨hi, rfl⟩
      | some k =>
        refine ⟨by simpa using hi, ?_⟩
        unfold portableStore
        simp only [Array.getElem?_modify, Array.getElem?_eq_getElem hi]
        split <;> rfl
  refine ⟨?_, ?_, ?_, ?_, ?_⟩
  · rw [hreg]
    exact h.registry
  · rw [hreg, heap_keepRun, ← registry_setting hs]
    exact hl.heap
  · intro i hi
    rw [hplans] at hi
    rw [hreg, planStore_keepRun]
    split
    · exact registry_setting hs ▸ hl.plans
    · exact h.plans i hi
  · have hcat : (Workbench.keepRun name c run w).catalog = w.catalog := by
      unfold Workbench.keepRun keepMemory
      cases c.portable <;> rfl
    rw [hcat]
    exact h.catalog
  · intro name' c' hc'
    have hcl : (Workbench.keepRun name c run w).cloners = Assoc.put name
        { c with answers := run.answers, resolved := run.resolved } w.cloners := by
      unfold Workbench.keepRun keepMemory
      cases c.portable <;> rfl
    rw [hcl, Assoc.find?_put] at hc'
    split at hc'
    · cases hc'
      exact ⟨(hrun hs).store_lt, (hrun hs).store_registry, (hrun hs).portable, hs.overrides,
        hl.resolved⟩
    · exact hrun (h.cloners name' c' hc')

/-- What a cloner does keeps everything in order. -/
theorem operate {α : Type} {op : Setting → CloneM α} (h : InOrder reg w)
    (hself : w.CopiesByItself reg name)
    (hop : ∀ c, Assoc.find? name w.cloners = some c → (w.setting c).Plain →
      ∃ Q, (w.setting c).upholding.Maintains (op (w.setting c)) (w.start c) Q) :
    Ends (Workbench.operate name op) w (fun _ => InOrder reg) (fun _ => InOrder reg) := by
  refine ends_operate (fun _ => h) fun c hc => ?_
  obtain ⟨Q, hq⟩ := hop c hc (h.plain hc hself)
  exact ends_mono (hq (h.lawful hc)) (fun _ _ hr => h.keepRun hc hr.1.lawful)
    (fun _ _ hr => h.keepRun hc hr.lawful)

/-! ## Steps -/

/-- Work on the heap by an allocator of the registry keeps everything in order. -/
theorem allocating {α : Type} {x : MemoryM HeapError α} (h : InOrder reg w)
    (hx : ∀ m, m.heap = w.heap → Allocator.Sustains (w.registryOf reg) x m) :
    Ends (Workbench.allocating reg x) w
      (fun _ w' => InOrder reg w' ∧ w'.registryOf reg = w.registryOf reg)
      (fun _ w' => InOrder reg w' ∧ w'.registryOf reg = w.registryOf reg) := by
  have hm := hx { heap := w.heap, tally := (Assoc.find? reg w.allocators).getD {} } rfl
  unfold Allocator.Sustains Ends at hm
  simp only [Workbench.allocating, tally, ends_bind, ends_get, ends_pure]
  cases hr : x { heap := w.heap, tally := (Assoc.find? reg w.allocators).getD {} } with
  | ok a m =>
    rw [hr] at hm
    exact ⟨h.setHeap hm.1 _, rfl⟩
  | error e m =>
    rw [hr] at hm
    exact ⟨h.setHeap hm.1 _, rfl⟩

theorem updateHeap {change : Heap → Except HeapError Write} (h : InOrder reg w)
    (hx : ∀ write, change w.heap = .ok write → (w.heap.write write).WellFormed (w.registryOf reg)) :
    Ends (Workbench.updateHeap change) w (fun _ => InOrder reg) (fun _ => InOrder reg) := by
  simp only [Workbench.updateHeap, ends_bind, ends_get, ends_ofHeap, ends_modify]
  cases hc : change w.heap with
  | ok write => exact h.setHeap (hx write hc) w.allocators
  | error e => exact h

theorem define (h : InOrder reg w) (d : ClassDecl) :
    Ends (Workbench.define reg d) w (fun _ => InOrder reg) (fun _ => InOrder reg) := by
  simp only [Workbench.define, ends_bind, ends_registry, ends_ofHeap]
  cases hd : (w.registryOf reg).define d with
  | error e => exact h
  | ok result =>
    obtain ⟨id, r⟩ := result
    obtain ⟨-, superclass, -, -, rfl⟩ := Registry.eq_add_of_define hd
    exact h.setRegistry (Registry.extends_add _ _) (h.registry.add _)

/-- Asking for an array class leaves the heap as it is. -/
theorem arrayOf (h : InOrder reg w) (component : Component) :
    Ends (Workbench.arrayOf reg component) w
      (fun _ w' => InOrder reg w' ∧ w'.heap = w.heap) (fun _ => InOrder reg) := by
  simp only [Workbench.arrayOf, ends_bind, ends_registry, ends_ofHeap]
  cases hd : (w.registryOf reg).arrayOf component with
  | error e => exact h
  | ok result =>
    obtain ⟨id, r⟩ := result
    rcases Registry.eq_add_of_arrayOf hd with rfl | ⟨n, rfl⟩
    · exact ⟨h.setRegistry (Registry.Extends.refl _) h.registry, rfl⟩
    · exact ⟨h.setRegistry (Registry.extends_add _ _) (h.registry.add _), rfl⟩

theorem newArray (h : InOrder reg w) (component : Component) {items : List Value}
    (hi : ∀ v ∈ items, w.heap.Has v) :
    Ends (Workbench.newArray reg component items) w (fun _ => InOrder reg)
      (fun _ => InOrder reg) := by
  unfold Workbench.newArray
  rw [ends_bind]
  refine ends_mono (h.arrayOf component) ?_ (fun _ _ h => h)
  rintro cls w' ⟨h', hheap⟩
  rw [ends_bind, ends_registry]
  refine ends_mono (h'.allocating fun m hm => ?_) (fun _ _ h => h.1) (fun _ _ h => h.1)
  refine Allocator.sustains_fillArray (hm ▸ h'.heap) cls fun v hv => ?_
  rw [hm, hheap]
  exact hi v hv

theorem push (h : InOrder reg w) (o : ObjectId) {items : List Value}
    (hi : ∀ v ∈ items, w.heap.Has v) :
    Ends (Workbench.push o items) w (fun _ => InOrder reg) (fun _ => InOrder reg) := by
  simp only [Workbench.push, ends_bind, ends_get, ends_ofHeap, Heap.contents]
  cases hc : w.heap.contents? o with
  | none => exact h
  | some old =>
    simp only
    cases hp : old.push? items with
    | none => exact h
    | some c =>
      have hold := h.heap.closed o
      rw [Heap.body_of_contents? hc] at hold
      simp only [ends_bind]
      refine h.updateHeap fun write hw => ?_
      refine wellFormed_setContents h.heap (Container.values_push hp hold hi) ?_ hw
      intro old' hold'
      cases hc.symm.trans hold'
      exact Container.kind_of_push? hp

/-- Whatever is done that is allowed, everything is in order after it. -/
theorem perform (h : InOrder reg w) (a : Action) (ha : a.Allowed reg w) :
    Ends (a.perform reg) w (fun _ => InOrder reg) (fun _ => InOrder reg) := by
  have alloc : ∀ {x : MemoryM HeapError ObjectId},
      (∀ m, m.heap = w.heap → Allocator.Sustains (w.registryOf reg) x m) →
      Ends (discard (Workbench.allocating reg x)) w (fun _ => InOrder reg)
        (fun _ => InOrder reg) := by
    intro x hx
    rw [ends_discard]
    exact ends_mono (h.allocating hx) (fun _ _ h => h.1) (fun _ _ h => h.1)
  cases a with
  | define d => exact ends_discard.mpr (h.define d)
  | arrayOf component =>
    exact ends_discard.mpr (ends_mono (h.arrayOf component) (fun _ _ h => h.1) (fun _ _ h => h))
  | allocate cls =>
    exact alloc fun m hm => Allocator.sustains_creating (hm ▸ h.heap)
      (Allocator.creates_allocate h.registry (hm ▸ h.heap) cls)
  | allocateArray cls length =>
    exact alloc fun m hm => Allocator.sustains_creating (hm ▸ h.heap)
      (Allocator.creates_allocateArray (hm ▸ h.heap) cls length)
  | instantiate cls fields =>
    exact alloc fun m hm => Allocator.sustains_instantiate h.registry (hm ▸ h.heap) cls (hm ▸ ha)
  | newArray component items => exact ends_discard.mpr (h.newArray component ha)
  | newContainer contents =>
    exact alloc fun m hm => Allocator.sustains_newContainer h.registry (hm ▸ h.heap) (hm ▸ ha)
  | setField o name v =>
    unfold Action.perform
    rw [ends_bind, ends_registry]
    exact h.updateHeap fun write hw => Allocator.wellFormed_setField h.registry h.heap ha hw
  | setElement o index v =>
    unfold Action.perform
    exact h.updateHeap fun write hw => wellFormed_setElement h.heap ha hw
  | push o items => exact ends_discard.mpr (h.push o ha)
  | setContents o c =>
    unfold Action.perform
    exact h.updateHeap fun write hw => wellFormed_setContents h.heap ha.1 ha.2 hw
  | addStore classifier => exact ends_discard.mpr (h.addStore classifier)
  | addPortable => exact ends_discard.mpr h.addPortable
  | keepCloner name c => exact h.setCloner name ha
  | clone name v =>
    exact ends_discard.mpr (h.operate ha.2 fun c _ hp => ⟨_, Setting.upholding_clone hp ha.1⟩)
  | shallow name o =>
    exact ends_discard.mpr (h.operate ha.2 fun c _ hp => ⟨_, Setting.upholding_shallow hp ha.1⟩)
  | copyInto name source target =>
    unfold Action.perform
    exact h.operate ha.2.2 fun c _ hp => ⟨_, Setting.upholding_copyInto hp ha.1 ha.2.1⟩

end InOrder

/-- The workbenches that a run can reach from a fresh one. -/
inductive Reached (reg : String) : Workbench → Prop where
  | fresh (rawAccess : Bool) : Reached reg { rawAccess }
  | act {w : Workbench} (a : Action) (h : Reached reg w) (ha : a.Allowed reg w) :
    Reached reg (after (a.perform reg) w)

theorem Reached.inOrder {reg : String} {w : Workbench} (h : Reached reg w) : w.InOrder reg := by
  induction h with
  | fresh rawAccess => exact InOrder.fresh reg rawAccess
  | act a _ ha ih => exact ends_after (ih.perform a ha)

/-- At every point of every run every object fits its class: the class is registered and the body
is of the form it asks for, headers tell the truth, primitives are as they are written, padding is
zero, array fields hold arrays or nothing, and all references lead to objects. -/
theorem every_reached_heap_is_well_formed {reg : String} {w : Workbench} (h : Reached reg w) :
    w.heap.WellFormed (w.registryOf reg) := h.inOrder.heap

/-- The workbench after some actions. -/
def play (reg : String) (actions : List Action) : Workbench :=
  actions.foldl (fun w a => after (a.perform reg) w) {}

theorem Reached.play {reg : String} {actions : List Action} {a : Action}
    (h : Reached reg (play reg actions)) (ha : a.Allowed reg (Workbench.play reg actions)) :
    Reached reg (Workbench.play reg (actions ++ [a])) := by
  rw [Workbench.play, List.foldl_append]
  exact .act a h ha

/-- An instance that refers to itself is made, and then cloned. -/
def selfReferringRun : List Action :=
  [ .define
      { name := "Node"
        fields := [{ name := "flag", type := .primitive .bool },
          { name := "next", type := .object Registry.rootClass }] },
    .instantiate 12 [("flag", .bool true), ("next", .null)],
    .setField 0 "next" (.ref 0),
    .addStore .byFlags,
    .keepCloner "cloner" { portable := none, store := 1 },
    .clone "cloner" (.ref 0) ]

example : (play "main" selfReferringRun).heap.objects =
    #[⟨12, .record, .record [1] [.ref 0]⟩, ⟨12, .record, .record [1] [.ref 1]⟩] := by
  decide +kernel

theorem reached_selfReferringRun : Reached "main" (play "main" selfReferringRun) := by
  have h₀ : Reached "main" (play "main" (selfReferringRun.take 0)) := .fresh true
  have h₁ : Reached "main" (play "main" (selfReferringRun.take 1)) := h₀.play trivial
  have h₂ : Reached "main" (play "main" (selfReferringRun.take 2)) := by
    refine h₁.play ?_
    intro e he
    rcases List.mem_cons.mp he with rfl | he
    · intro o ho
      cases ho
    · rw [List.mem_singleton.mp he]
      exact has_null _
  have h₃ : Reached "main" (play "main" (selfReferringRun.take 3)) := by
    refine h₂.play ?_
    intro o ho
    cases ho
    decide
  have h₄ : Reached "main" (play "main" (selfReferringRun.take 4)) := h₃.play trivial
  have hs : Serves (play "main" (selfReferringRun.take 4)) "main"
      { portable := none, store := 1 } := by
    refine ⟨by decide, by decide, ?_, ?_, ?_⟩
    · intro i hi
      cases hi
    · intro cls i h
      exact Policy.standard_override h
    · intro cls i h
      cases h
  have h₅ : Reached "main" (play "main" (selfReferringRun.take 5)) := h₄.play hs
  refine h₅.play ⟨?_, ?_⟩
  · intro o ho
    cases ho
    decide
  · intro c hc hf
    have hoff : (Assoc.find? "cloner" (play "main" (selfReferringRun.take 5)).cloners).all
        (fun c => !c.policy.flags.useSelfCopy) = true := by decide
    rw [show Assoc.find? "cloner" (play "main" (selfReferringRun.take 5)).cloners = some c from hc,
      Option.all_some, hf] at hoff
    cases hoff

theorem heap_of_selfReferringRun_is_well_formed :
    (play "main" selfReferringRun).heap.WellFormed
      ((play "main" selfReferringRun).registryOf "main") :=
  every_reached_heap_is_well_formed reached_selfReferringRun

end Workbench

end DeepCopy

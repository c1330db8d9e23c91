-- The workbench: one heap with any number of registries over it, their
-- allocators and backends, stores of plans, cloners and maps of copies, each
-- known by a name. What several cloners share is kept here once.
import DeepCopy.Describe

namespace DeepCopy

/-- A portable backend that may be shared: the registry it allocates by, and its tally. -/
structure PortableStore where
  registry : String
  tally : Tally := {}

/-- A store of plans that may be shared: the registry and the classifier they are made by. -/
structure PlanStore where
  registry : String
  classifier : Classifier := .byFlags
  plans : Plans := []

/-- Everything there is. -/
structure Workbench where
  /-- Whether the fast backend is there. -/
  rawAccess : Bool := true
  heap : Heap := {}
  registries : Assoc String Registry := []
  /-- The layouts that were asked of each registry. -/
  layouts : Assoc String Layouts := []
  allocators : Assoc String Tally := []
  portables : Array PortableStore := #[]
  /-- The portable backend of each registry. -/
  sharedPortables : Assoc String Nat := []
  /-- The first store is that of the global registry. -/
  stores : Array PlanStore := #[{ registry := "global" }]
  storeNames : Assoc String Nat := []
  cloners : Assoc String Cloner := []
  copyMaps : Assoc String Copies := []
  /-- The values that handles hold. -/
  values : Assoc String Value := []
  catalog : Catalog := .initial
  /-- How many makers were registered. -/
  makers : Nat := 0
  journal : List Note := []

namespace Workbench

/-- Why a request to the workbench fails. -/
inductive Fault where
  | heap (error : HeapError)
  | stop (stop : Stop)
  /-- Nothing has this name, or what has it is of another kind. -/
  | noHandle (name : String)
  /-- No class of the registry has this name. -/
  | noClass (name : String)
  /-- The fast backend was asked for and is not there. -/
  | fastUnavailable

/-- Work on the workbench. What was done before a failure stays done. -/
abbrev WorkM (α : Type) := EStateM Fault Workbench α

/-- The name of the registry that scripts look classes up in. -/
def mainRegistry : String := "main"

/-- The name of the global registry. -/
def globalRegistry : String := "global"

/-- Goes on with what worked on the heap, and fails with what did not. -/
def ofHeap {α : Type} : Except HeapError α → WorkM α
  | .ok a => pure a
  | .error e => throw (.heap e)

/-- Goes on with what worked in cloning, and fails with what did not. -/
def ofClone {α : Type} : Except CloneError α → WorkM α
  | .ok a => pure a
  | .error e => throw (.stop (.failed e))

/-- Goes on with what could be set up, and fails with what could not. -/
def ofConfig {α : Type} : Except ConfigFault α → WorkM α
  | .ok a => pure a
  | .error e => throw (.stop (.failed (.config e)))

/-- What has a name. -/
def named {α : Type} (name : String) (look : Workbench → Option α) : WorkM α := do
  match look (← get) with
  | some a => pure a
  | none => throw (.noHandle name)

/-! ## Registries and the heap -/

/-- The registry of a name. One that was never named before has only the built-in classes. -/
def registryOf (w : Workbench) (name : String) : Registry :=
  (Assoc.find? name w.registries).getD .initial

/-- The registry of a name, as it is now. -/
def registry (name : String) : WorkM Registry := return (← get).registryOf name

/-- Keeps a registry under a name. -/
def setRegistry (name : String) (r : Registry) : WorkM Unit :=
  modify fun w => { w with registries := Assoc.put name r w.registries }

/-- Defines a class. -/
def define (reg : String) (d : ClassDecl) : WorkM ClassId := do
  let (id, r) ← ofHeap ((← registry reg).define d)
  setRegistry reg r
  pure id

/-- The class of arrays of a component. -/
def arrayOf (reg : String) (component : Component) : WorkM ClassId := do
  let (id, r) ← ofHeap ((← registry reg).arrayOf component)
  setRegistry reg r
  pure id

/-- The layouts that were asked of the registry of a name. -/
def layoutsOf (w : Workbench) (reg : String) : Layouts := (Assoc.find? reg w.layouts).getD []

/-- The layout of a class. -/
def layoutOf (reg : String) (cls : ClassId) : WorkM Layout := do
  let w ← get
  let (l, layouts) ← ofHeap ((w.layoutsOf reg).get (w.registryOf reg) cls)
  modify fun w => { w with layouts := Assoc.put reg layouts w.layouts }
  pure l

/-- The fields of a class's instances. -/
def fieldsOf (reg : String) (cls : ClassId) : WorkM (List Field) := (·.fields) <$> layoutOf reg cls

/-- The tally of a registry's allocator. -/
def tally (reg : String) : WorkM Tally := return (Assoc.find? reg (← get).allocators).getD {}

/-- Works on the heap with the allocator of a registry. -/
def allocating {α : Type} (reg : String) (x : MemoryM HeapError α) : WorkM α := do
  let w ← get
  let keep (m : Memory) (w : Workbench) : Workbench :=
    { w with heap := m.heap, allocators := Assoc.put reg m.tally w.allocators }
  match x { heap := w.heap, tally := ← tally reg } with
  | .ok a m =>
    modify (keep m)
    pure a
  | .error e m =>
    modify (keep m)
    throw (.heap e)

/-- A new array of a component with given elements. -/
def newArray (reg : String) (component : Component) (items : List Value) : WorkM ObjectId := do
  let cls ← arrayOf reg component
  allocating reg (Allocator.fillArray (← registry reg) cls items)

/-- A new object with any body. -/
def createObject (cls : ClassId) (body : Body) : WorkM ObjectId :=
  modifyGet fun w => (w.heap.size, { w with heap := w.heap.add (Object.new cls body) })

/-- Writes to the heap, or fails and leaves it. -/
def updateHeap (change : Heap → Except HeapError Write) : WorkM Unit := do
  let change ← ofHeap (change (← get).heap)
  modify fun w => { w with heap := w.heap.write change }

/-- Adds to a container, if it can be added to. -/
def push (o : ObjectId) (items : List Value) : WorkM Bool := do
  let old ← ofHeap ((← get).heap.contents o)
  match old.push? items with
  | some c =>
    updateHeap fun h => h.setContents o c
    pure true
  | none => pure false

/-! ## Handles -/

/-- Lets a handle hold a value. -/
def bindValue (name : String) (v : Value) : WorkM Unit :=
  modify fun w => { w with values := Assoc.put name v w.values }

/-- The value a handle holds. -/
def valueOf (name : String) : WorkM Value := named name fun w => Assoc.find? name w.values

/-- The object a handle holds. -/
def objectOf (name : String) : WorkM ObjectId :=
  named name fun w => (Assoc.find? name w.values).bind Value.object?

/-! ## Backends and stores of plans -/

/-- Adds a portable backend for a registry. -/
def addPortable (reg : String) : WorkM Nat :=
  modifyGet fun w =>
    (w.portables.size, { w with portables := w.portables.push { registry := reg } })

/-- The portable backend of a registry, made when it is first asked for. -/
def sharedPortable (reg : String) : WorkM Nat := do
  match Assoc.find? reg (← get).sharedPortables with
  | some i => pure i
  | none =>
    let i ← addPortable reg
    modify fun w => { w with sharedPortables := Assoc.put reg i w.sharedPortables }
    pure i

/-- The backend of a kind for a registry: none stands for the fast one, which must be there. -/
def sharedBackend (reg : String) : Backend.Kind → WorkM (Option Nat)
  | .fast => do
    if (← get).rawAccess then pure none else throw .fastUnavailable
  | .portable => some <$> sharedPortable reg

/-- A backend of its own for a choice. -/
def ownBackend (reg : String) (choice : BackendChoice) : WorkM (Option Nat) := do
  match ← ofConfig (choice.select (← get).rawAccess) with
  | .fast => pure none
  | .portable => some <$> addPortable reg

/-- The portable backend of an index. -/
def portableStore (w : Workbench) (i : Nat) : PortableStore :=
  w.portables[i]?.getD { registry := globalRegistry }

/-- The store of plans of an index. -/
def planStore (w : Workbench) (i : Nat) : PlanStore :=
  w.stores[i]?.getD { registry := globalRegistry }

/-- The backend that a cloner's choice stands for. -/
def backendOf (w : Workbench) : Option Nat → Backend
  | none => .fast
  | some i => .portable (w.registryOf (w.portableStore i).registry)

/-- The tally of a backend. The fast one keeps none. -/
def backendTally (w : Workbench) : Option Nat → Tally
  | none => {}
  | some i => (w.portableStore i).tally

/-- The workbench after work on the heap by a backend. -/
def keepMemory (portable : Option Nat) (m : Memory) (w : Workbench) : Workbench :=
  let w := { w with heap := m.heap }
  match portable with
  | none => w
  | some i => { w with portables := w.portables.modify i fun p => { p with tally := m.tally } }

/-- Works on the heap with a backend alone. -/
def withBackend {α : Type} (portable : Option Nat) (x : Backend → CopyM α) : WorkM α := do
  let w ← get
  match x (w.backendOf portable) { heap := w.heap, tally := w.backendTally portable } with
  | .ok a m =>
    modify (keepMemory portable m)
    pure a
  | .error e m =>
    modify (keepMemory portable m)
    throw (.stop e)

/-- Adds a store of plans. -/
def addStore (reg : String) (classifier : Classifier) : WorkM Nat :=
  modifyGet fun w =>
    (w.stores.size, { w with stores := w.stores.push { registry := reg, classifier } })

/-- Adds a store of plans with a name. -/
def nameStore (name reg : String) (classifier : Classifier) : WorkM Unit := do
  let i ← addStore reg classifier
  modify fun w => { w with storeNames := Assoc.put name i w.storeNames }

/-- The store of a name. -/
def storeOf (name : String) : WorkM Nat := named name fun w => Assoc.find? name w.storeNames

/-- The plan of a class from a store. -/
def planOf (store : Nat) (cls : ClassId) : WorkM Plan := do
  let w ← get
  let s := w.planStore store
  let (p, layouts, plans) ← ofClone <|
    s.plans.getWith (w.registryOf s.registry) s.classifier cls (w.layoutsOf s.registry)
  modify fun w => { w with
    layouts := Assoc.put s.registry layouts w.layouts
    stores := w.stores.modify store fun s => { s with plans } }
  pure p

/-! ## Makers of implementors -/

/-- Registers a maker under a name. Each time it is asked it says so in the journal, by the number
of makers that were registered before it. -/
def registerMaker (name : String) (i : Implementor) : WorkM Nat :=
  modifyGet fun w =>
    (w.makers, { w with
      makers := w.makers + 1
      catalog := Assoc.put name { notes := [.made w.makers], implementor := i } w.catalog })

/-- Whether a maker has a name. If so, it is asked. -/
def resolveMaker (name : String) : WorkM Bool := do
  match Assoc.find? name (← get).catalog with
  | some maker =>
    modify fun w => { w with journal := w.journal ++ maker.notes }
    pure true
  | none => pure false

/-! ## Cloners -/

/-- Keeps a cloner under a name. -/
def setCloner (name : String) (c : Cloner) : WorkM Unit :=
  modify fun w => { w with cloners := Assoc.put name c w.cloners }

/-- The cloner of a name. -/
def clonerOf (name : String) : WorkM Cloner := named name fun w => Assoc.find? name w.cloners

/-- Changes the cloner of a name. -/
def updateCloner (name : String) (f : Cloner → Cloner) : WorkM Unit := do
  setCloner name (f (← clonerOf name))

/-- A cloner for a registry with a backend. -/
def clonerWith (reg : String) (portable : Option Nat) : WorkM Cloner :=
  return { portable, store := ← addStore reg .byFlags }

/-- A cloner for a registry with the best backend there is. -/
def clonerFor (reg : String) : WorkM Cloner := do
  clonerWith reg (← ownBackend reg .auto)

/-- A cloner for the global registry with the best backend there is. -/
def globalCloner : WorkM Cloner :=
  return { portable := ← ownBackend globalRegistry .auto, store := 0 }

/-- A cloner for a registry, set up by a configuration. -/
def configuredCloner (reg : String) (config : Config) : WorkM Cloner := do
  let c ← clonerWith reg (← ownBackend reg config.backend)
  pure (c.mapFlags fun _ => config.flags)

/-- A cloner that copies plain data by the fast backend, which must be there. -/
def quickCloner (store : WorkM Nat) : WorkM Cloner := do
  if (← get).rawAccess then
    return { facade := .quick, portable := none, store := ← store, mode := .minimal
             policy := .minimal }
  else throw (.stop (.failed (.config .quickUnavailable)))

/-- The registry that a cloner's plans are made from. -/
def clonerRegistry (w : Workbench) (c : Cloner) : Registry :=
  w.registryOf (w.planStore c.store).registry

/-- What does not change while a cloner is at work. -/
def setting (w : Workbench) (c : Cloner) : Setting :=
  { registry := w.clonerRegistry c
    classifier := (w.planStore c.store).classifier
    backend := w.backendOf c.portable
    mode := c.mode
    policy := c.policy
    catalog := w.catalog
    scope := { values := w.values, registry := w.registryOf mainRegistry } }

/-- Where a cloner's work starts. -/
def start (w : Workbench) (c : Cloner) : Run :=
  { memory := { heap := w.heap, tally := w.backendTally c.portable }
    plans := (w.planStore c.store).plans
    resolved := c.resolved
    answers := c.answers
    journal := w.journal }

/-- The workbench after a cloner has worked. -/
def keepRun (name : String) (c : Cloner) (run : Run) (w : Workbench) : Workbench :=
  let w := keepMemory c.portable run.memory w
  { w with
    stores := w.stores.modify c.store fun s => { s with plans := run.plans }
    cloners := Assoc.put name { c with answers := run.answers, resolved := run.resolved } w.cloners
    journal := run.journal }

/-- Runs an operation of the cloner of a name. -/
def operate {α : Type} (name : String) (op : Setting → CloneM α) : WorkM α := do
  let c ← clonerOf name
  let w ← get
  match op (w.setting c) (w.start c) with
  | .ok a run =>
    modify (keepRun name c run)
    pure a
  | .error e run =>
    modify (keepRun name c run)
    throw (.stop e)

/-- A deep clone of an object. The quick cloner insists that the clone of an object is an object;
with the others it may have become something else. -/
def cloneObject (name : String) (o : ObjectId) : WorkM (Option ObjectId) := do
  let c ← clonerOf name
  let v ← operate name fun s => s.clone (.ref o)
  match v, c.facade with
  | .ref copy, _ => pure (some copy)
  | v, .quick => throw (.stop (.failed (.config (.quickResult v.kind))))
  | _, _ => pure none

/-- Whether the policy of a cloner shares the instances of a class of a registry. The registry need
not be the cloner's own, and the answer is remembered whichever it is. -/
def sharesClass (name reg : String) (cls : ClassId) : WorkM Bool := do
  let c ← clonerOf name
  let (shared, c) := c.sharesClass (← registry reg) cls
  setCloner name c
  pure shared

end Workbench

end DeepCopy

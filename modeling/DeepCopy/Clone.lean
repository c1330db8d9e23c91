-- The traversal. A value is cloned by a list of rules, the first that applies
-- deciding; objects that are duplicated are first entered into the map of copies
-- and then filled, so that shared and circular references come out as they were.
import DeepCopy.Copies
import DeepCopy.Policy

namespace DeepCopy

/-- How many of the rules are consulted. -/
inductive Mode where
  /-- All of them. -/
  | full
  /-- Only what is needed to copy plain data. -/
  | minimal
deriving DecidableEq, Repr

/-- What does not change while a clone runs. -/
structure Setting where
  /-- The registry from which plans are made. -/
  registry : Registry
  classifier : Classifier := .byFlags
  backend : Backend
  mode : Mode := .full
  policy : Policy
  catalog : Catalog := .initial
  scope : Scope := {}

/-- What changes while a clone runs. -/
structure Run where
  memory : Memory := {}
  plans : Plans := []
  /-- The implementors of classes that name one, once they were needed. -/
  resolved : Assoc ClassId Implementor := []
  answers : RootAnswers := []
  copies : Copies := {}
  journal : List Note := []

/-- A step of a clone. What was done before it stops stays done. -/
abbrev CloneM (α : Type) := EStateM Stop Run α

namespace CloneM

/-- Works on the heap. The run lets go of its memory for as long, so that it is changed in place. -/
def onMemory {α : Type} (x : CopyM α) : CloneM α := fun run =>
  let memory := run.memory
  let run := { run with memory := {} }
  match x memory with
  | .ok a memory => .ok a { run with memory }
  | .error e memory => .error e { run with memory }

/-- Ends the clone with an error. -/
def fail {α : Type} (e : CloneError) : CloneM α := throw (.failed e)

/-- Goes on with what worked, and ends the clone with what did not. -/
def ofExcept {α : Type} : Except CloneError α → CloneM α
  | .ok a => pure a
  | .error e => fail e

/-- The outcome of a step, an error included. Only what cannot be reported ends the clone. -/
def outcome {α : Type} (x : CloneM α) : CloneM (Except CloneError α) := fun run =>
  match x run with
  | .ok a run' => .ok (.ok a) run'
  | .error (.failed e) run' => .ok (.error e) run'
  | .error stop run' => .error stop run'

/-- The heap. -/
def heap : CloneM Heap := return (← get).memory.heap

/-- The value that stands for an object. -/
def copyOf (o : ObjectId) : CloneM (Option Value) := return (← get).copies.find? o

/-- Lets a value stand for an object. -/
def register (o : ObjectId) (copy : Value) : CloneM Unit :=
  modify fun run => { run with copies := run.copies.put o copy }

/-- Leaves notes in the journal. -/
def write (notes : List Note) : CloneM Unit :=
  modify fun run => { run with journal := run.journal ++ notes }

end CloneM

open CloneM

namespace Setting

/-- The plan of a class. -/
def plan (s : Setting) (cls : ClassId) : CloneM Plan := do
  let (p, plans) ← ofExcept ((← get).plans.get s.registry s.classifier cls)
  modify fun run => { run with plans }
  pure p

/-- Whether the instances of a class are shared by the policy. -/
def sharesClass (s : Setting) (cls : ClassId) : CloneM Bool :=
  modifyGet fun run =>
    let (shared, answers) := s.policy.sharesClass s.registry cls run.answers
    (shared, { run with answers })

/-- The implementor that a class names. It is taken from the catalog once per class. -/
def namedImplementor (s : Setting) (p : Plan) (name : String) : CloneM Implementor := do
  match Assoc.find? p.cls (← get).resolved with
  | some i => pure i
  | none =>
    match Assoc.find? name s.catalog with
    | some maker =>
      write maker.notes
      modify fun run => { run with resolved := Assoc.put p.cls maker.implementor run.resolved }
      pure maker.implementor
    | none => fail (.config (.unknownRoutine p.name name))

/-! ## Filling copies

Each part takes `nested`, by which it clones the values it meets. -/

variable (s : Setting) (nested : Value → CloneM Value)

/-- Clones or resets one field. When the whole block was carried over at once, a primitive is
already there. -/
def copyField (source target : ObjectId) (bulk : Bool) (f : PlannedField) : CloneM Unit :=
  if s.policy.resets f.marks then onMemory (s.backend.resetField f target)
  else if f.type.category = .primitive then
    (if bulk then pure () else onMemory (s.backend.copyPrimitive f source target))
  else do
    let v ← onMemory (s.backend.readField f source)
    let copy ← nested v
    onMemory (s.backend.copyField f source target (some copy))

/-- Clones or resets fields, one after the other. -/
def copyFieldsFrom (source target : ObjectId) (bulk : Bool) : List PlannedField → CloneM Unit
  | [] => pure ()
  | f :: fs => do
    copyField s nested source target bulk f
    copyFieldsFrom source target bulk fs

/-- Clones all fields of an instance into another. -/
def copyFields (source target : ObjectId) (p : Plan) : CloneM Unit := do
  let bulk ← onMemory (s.backend.copyBlock source target)
  copyFieldsFrom s nested source target bulk p.fields

/-- Clones values in order. -/
def cloneAll : List Value → CloneM (List Value)
  | [] => pure []
  | v :: vs => do
    let copy ← nested v
    let copies ← cloneAll vs
    pure (copy :: copies)

/-- Clones entries in order, each key before its value. -/
def cloneEntries : Assoc Key Value → CloneM (List (Value × Value))
  | [] => pure []
  | (k, v) :: entries => do
    let key ← nested k.value
    let value ← nested v
    let copies ← cloneEntries entries
    pure ((key, value) :: copies)

/-- Clones the contents of a container: what it holds, put into a new one in the same order. -/
def cloneContents : Container → CloneM Container
  | .list items => .list <$> cloneAll nested items
  | .linked items => .linked <$> cloneAll nested items
  | .hashSet keys => .setOf <$> cloneAll nested (keys.map (·.value))
  | .hashMap entries => .mapOf <$> cloneEntries nested entries
  | .treeMap entries => .sortedMapOf <$> cloneEntries nested entries
  | .calendar moment => pure (.calendar moment)

/-- The error that the contents of a container could not be reached. -/
def contentsFault (p : Plan) (o : ObjectId) (cause : HeapError) : CloneError :=
  .access p.name "<contents>" o cause

/-- Gives a container other contents. -/
def setContents (p : Plan) (o : ObjectId) (c : Container) : CloneM Unit :=
  onMemory (CopyM.update fun h => (h.setContents o c).mapError (contentsFault p o))

/-! ## Duplicates

Each part takes `enter` as well, by which it lets a copy stand for its source, and where it asks
what stands for an object, `look`. The clone itself works on the map of copies and does no more;
with other arguments a clone can be watched. -/

variable (look : ObjectId → CloneM (Option Value)) (enter : ObjectId → Value → CloneM Unit)

/-- Duplicates a container. -/
def duplicateContainerBy (source : ObjectId) : CloneM Value := do
  let cls := (← heap).cls source
  let p ← s.plan cls
  match (← heap).contents? source with
  | none => fail (contentsFault p source (.wrongBody p.name .container))
  | some contents =>
    let target ← onMemory (s.backend.allocate p)
    enter source (.ref target)
    let copies ← cloneContents nested contents
    setContents p target copies
    pure (.ref target)

/-- The elements of a reference array. -/
def slotItems (source : ObjectId) : CloneM (List Value) := do
  let h ← heap
  match h.body source with
  | .slots items => pure items
  | _ =>
    let name := s.registry.className (h.cls source)
    fail (.access name "[]" source (.wrongBody name .slotArray))

/-- Clones elements into an array, from an index on. -/
def cloneElements (target : ObjectId) : (index : Nat) → List Value → CloneM Unit
  | _, [] => pure ()
  | index, v :: vs => do
    let copy ← nested v
    onMemory (s.backend.writeElement target index copy)
    cloneElements target (index + 1) vs

/-- Duplicates a reference array. -/
def duplicateSlotsBy (source : ObjectId) : CloneM Value := do
  let items ← s.slotItems source
  let target ← onMemory (s.backend.allocateSlots ((← heap).cls source) items.length)
  enter source (.ref target)
  cloneElements s nested target 0 items
  pure (.ref target)

/-- Duplicates a primitive array. -/
def duplicatePackedBy (source : ObjectId) : CloneM Value := do
  let target ← onMemory (s.backend.duplicatePacked source)
  enter source (.ref target)
  pure (.ref target)

/-- Duplicates an instance. -/
def duplicateRecordBy (source : ObjectId) (p : Plan) : CloneM Value := do
  let target ← onMemory (s.backend.allocate p)
  enter source (.ref target)
  copyFields s nested source target p
  pure (.ref target)

/-- Duplicates an object by the shape it was made with. -/
def duplicateBy (source : ObjectId) (p : Plan) : CloneM Value := do
  match (← heap).shape source with
  | .packed => s.duplicatePackedBy enter source
  | .slots => s.duplicateSlotsBy nested enter source
  | .container => s.duplicateContainerBy nested enter source
  | .record => s.duplicateRecordBy nested enter source p

/-! ## Routines -/

/-- The error that fields can only be cloned between instances. -/
def fieldsFault (p : Plan) (cls : ClassId) (o : ObjectId) : CloneError :=
  .access p.name "<fields>" o (.wrongBody (s.registry.className cls) .record)

/-- Clones the fields of an instance into another of the same class. -/
def cloneFields (source target : ObjectId) : CloneM Unit := do
  let h ← heap
  let p ← s.plan (h.cls source)
  if h.shape source ≠ .record then fail (s.fieldsFault p (h.cls source) source)
  else if h.shape target ≠ .record then fail (s.fieldsFault p (h.cls target) target)
  else if h.cls source ≠ h.cls target then
    fail (.config (.cannotCloneFields p.name (s.registry.className (h.cls target))))
  else copyFields s nested source target p

/-- A bare object of a class. -/
def allocate (cls : ClassId) : CloneM ObjectId := do
  let p ← s.plan cls
  onMemory (s.backend.allocate p)

/-- Answers a request of a routine. -/
def answer : (q : Request) → CloneM q.Reply
  | .clone v => outcome (nested v)
  | .cloneFields source target => outcome (s.cloneFields nested source target)
  | .register source copy => register source copy
  | .copyOf source => copyOf source
  | .visited => return (← get).copies.size
  | .allocate cls => outcome (s.allocate cls)
  | .plan cls => outcome (s.plan cls)
  | .backend => pure s.backend.kind
  | .flags => pure s.policy.flags
  | .look o => return (← heap).get o
  | .create cls body => onMemory (Memory.create cls body)
  | .overwrite o body =>
    modify fun run => { run with memory.heap := run.memory.heap.setBody o body }
  | .getField o name => return s.registry.getField (← heap) o name
  | .setField o name v => do
    match s.registry.setField (← heap) o name v with
    | .ok w =>
      modify fun run => { run with memory.heap := run.memory.heap.write w }
      pure (.ok ())
    | .error e => pure (.error e)
  | .note n => write [n]

/-- Runs a routine to its end. -/
def runRoutine : Routine → CloneM Value
  | .finish result => ofExcept result
  | .ask request next => do
    let reply ← s.answer nested request
    runRoutine (next reply)

/-- What an implementor does with a source object. -/
def implementBy (i : Implementor) (source : ObjectId) : CloneM Value :=
  match i with
  | .containers => s.duplicateContainerBy nested enter source
  | .script script => s.runRoutine nested (script.routine s.scope source)
  | .routine f => s.runRoutine nested (f source)

/-- How the failure of an implementor is reported: a bare error of the heap is put down to the
class of the source, all else is passed on. -/
def blame (cls : String) : CloneError → CloneError
  | .heap cause => .delegate cls (.heap cause)
  | e => e

/-- Leaves the cloning of an object to an implementor. What it returns stands for the object,
unless it has let something stand for it already. -/
def delegateBy (i : Implementor) (source : ObjectId) : CloneM Value := do
  let result ← outcome (s.implementBy nested enter i source)
  match result with
  | .error e => fail (blame (s.registry.className ((← heap).cls source)) e)
  | .ok copy =>
    match ← look source with
    | some _ => pure copy
    | none =>
      enter source copy
      pure copy

/-- Leaves the cloning of an object to the self-copy method of its class. -/
def copyItself (method : SelfCopy) (source : ObjectId) (p : Plan) : CloneM Value := do
  let (result, h) := method source (← heap)
  modify fun run => { run with memory.heap := h }
  match result with
  | .ok copy =>
    register source (.ref copy)
    pure (.ref copy)
  | .error (.clone e) => fail e
  | .error (.other fault) => fail (.delegate p.name fault)

/-! ## The rules -/

/-- What a policy says of an object by itself. -/
inductive Verdict where
  /-- It turns into null. -/
  | nulled
  /-- It stands for itself. -/
  | shared
  /-- It is left to an implementor. -/
  | overridden (i : Implementor)
  /-- The plan of its class decides. -/
  | open

/-- What the policy says of an object. In minimal mode it is not asked. -/
def verdict (cls : ClassId) (o : ObjectId) : CloneM Verdict :=
  if s.mode = .minimal then pure .open
  else if s.policy.nullsClass cls then pure .nulled
  else do
    let shared ← s.sharesClass cls
    pure <|
      if shared || s.policy.sharesObject o then .shared
      else if s.policy.flags.useOverrides then
        match s.policy.override? cls with
        | some i => .overridden i
        | none => .open
      else .open

/-- What the plan of a class says of its instances. -/
inductive PlanVerdict where
  /-- They stand for themselves. -/
  | shared
  /-- They are left to the implementor of this name. -/
  | named (name : String)
  /-- They copy themselves. -/
  | selfCopied (method : SelfCopy)
  /-- They are duplicated. -/
  | duplicated

/-- Whether the plan of a class says that its instances are shared. -/
def sharesPlan (p : Plan) : Bool :=
  match p.classification with
  | .nonCloneable => true
  | .immutable => !s.policy.flags.cloneImmutable
  | .mutable => false

/-- What the plan of a class says. In minimal mode all instances are duplicated. -/
def planVerdict (p : Plan) : PlanVerdict :=
  if s.mode = .minimal then .duplicated
  else if s.sharesPlan p then .shared
  else
    match p.cloneWith, p.selfCopy with
    | some name, _ => .named name
    | none, some method => if s.policy.flags.useSelfCopy then .selfCopied method else .duplicated
    | none, none => .duplicated

/-- Clones an object as the plan of its class says. -/
def cloneByPlanBy (source : ObjectId) (p : Plan) : CloneM Value :=
  match s.planVerdict p with
  | .shared => pure (.ref source)
  | .named name => do
    let i ← s.namedImplementor p name
    s.delegateBy nested look enter i source
  | .selfCopied method => copyItself method source p
  | .duplicated => s.duplicateBy nested enter source p

/-- Clones an object that has no copy yet. -/
def cloneNewBy (source : ObjectId) : CloneM Value := do
  let cls := (← heap).cls source
  match ← s.verdict cls source with
  | .nulled => pure .null
  | .shared => pure (.ref source)
  | .overridden i => s.delegateBy nested look enter i source
  | .open =>
    let p ← s.plan cls
    s.cloneByPlanBy nested look enter source p

/-! ## On the map of copies -/

@[inherit_doc duplicateContainerBy]
abbrev duplicateContainer := s.duplicateContainerBy nested register

@[inherit_doc duplicateSlotsBy]
abbrev duplicateSlots := s.duplicateSlotsBy nested register

@[inherit_doc duplicatePackedBy]
abbrev duplicatePacked := s.duplicatePackedBy register

@[inherit_doc duplicateRecordBy]
abbrev duplicateRecord := s.duplicateRecordBy nested register

@[inherit_doc duplicateBy]
abbrev duplicate := s.duplicateBy nested register

@[inherit_doc implementBy]
abbrev implement := s.implementBy nested register

@[inherit_doc delegateBy]
abbrev delegate := s.delegateBy nested copyOf register

@[inherit_doc cloneByPlanBy]
abbrev cloneByPlan := s.cloneByPlanBy nested copyOf register

@[inherit_doc cloneNewBy]
abbrev cloneNew := s.cloneNewBy nested copyOf register

end Setting

/-- Clones a value. All but references stay as they are; an object that has a copy comes out as
that copy. `depth` bounds how deeply objects are nested that have none. -/
def cloneValue (s : Setting) : (depth : Nat) → Value → CloneM Value
  | depth, .ref o => do
    match ← copyOf o with
    | some copy => pure copy
    | none =>
      match depth with
      | 0 => throw .tooDeep
      | depth + 1 => s.cloneNew (cloneValue s depth) o
  | _, v => pure v

end DeepCopy

-- Copy plans: what cloning needs to know of a class. A plan is made from the
-- registry when it is first asked for and kept from then on.
import DeepCopy.Registry

namespace DeepCopy

/-- What happens to the instances of a class by default. -/
inductive Classification where
  /-- They are duplicated. -/
  | mutable
  /-- They are shared unless the policy says otherwise. -/
  | immutable
  /-- They are always shared. -/
  | nonCloneable
deriving DecidableEq, Repr

namespace Classification

/-- The word for a classification. -/
def name : Classification → String
  | mutable => "Mutable"
  | immutable => "Immutable"
  | nonCloneable => "NonCloneable"

/-- The classification of a word. -/
def ofName? (name : String) : Option Classification :=
  [mutable, immutable, nonCloneable].find? fun c => c.name == name

end Classification

/-- A rule by which classes are classified. -/
abbrev Classifier := Registry → ClassId → ClassDecl → Classification

/-- Whether a class passes immutability on to its subclasses. -/
def ClassFlags.bindsSubclasses (f : ClassFlags) : Bool := f.immutable && f.immutableSubclasses

/-- Whether a proper ancestor of a class passes immutability on to it. -/
def Registry.inheritsImmutability (r : Registry) (cls : ClassId) : Bool :=
  match r.ancestors cls with
  | .ok chain =>
    (chain.drop 1).any fun a =>
      match r.get? a with
      | some e => e.decl.flags.bindsSubclasses
      | none => false
  | .error _ => false

/-- Classes are classified by their flags, and by those of ancestors that bind subclasses. -/
def Classifier.byFlags : Classifier := fun r cls d =>
  if d.flags.nonCloneable then .nonCloneable
  else if d.flags.immutable then .immutable
  else if r.inheritsImmutability cls then .immutable
  else .mutable

/-- Certain classes are classified as listed, all others by another rule. -/
def Classifier.byClass (listed : Assoc ClassId Classification) (others : Classifier) : Classifier :=
  fun r cls d =>
    match Assoc.find? cls listed with
    | some c => c
    | none => others r cls d

/-- All classes are classified as mutable. -/
def Classifier.allMutable : Classifier := fun _ _ _ => .mutable

/-- A field as a plan lists it: `holder` is the name of the class the plan is for. -/
structure PlannedField extends Field where
  holder : String
deriving DecidableEq, Repr

/-- What cloning needs to know of a class. -/
structure Plan where
  cls : ClassId
  name : String
  kind : ClassDecl.Kind
  fields : List PlannedField
  classification : Classification
  cloneWith : Option String
  selfCopy : Option SelfCopy
  blockSize : Nat
  slotCount : Nat

namespace Plan

/-- The plan of a registered class. -/
def ofEntry (r : Registry) (classify : Classifier) (cls : ClassId) (e : Registry.Entry) : Plan :=
  { cls
    name := e.decl.name
    kind := e.decl.kind
    fields := e.layout.fields.map fun f => { f with holder := e.decl.name }
    classification := classify r cls e.decl
    cloneWith := e.decl.cloneWith
    selfCopy := e.decl.selfCopy
    blockSize := e.layout.blockSize
    slotCount := e.layout.slotCount }

/-- The plan of a class, made from the registry as it is. -/
def make (r : Registry) (classify : Classifier) (cls : ClassId) : Except CloneError Plan :=
  match r.entry cls with
  | .ok e => .ok (ofEntry r classify cls e)
  | .error cause => .error (.introspection (r.className cls) cause)

/-- The plan of a class with its layout from those on demand, and the layouts with it among them. -/
def makeWith (r : Registry) (classify : Classifier) (cls : ClassId) (layouts : Layouts) :
    Except CloneError (Plan × Layouts) :=
  Except.mapError (.introspection (r.className cls)) do
    let e ← r.entry cls
    let (layout, layouts) ← layouts.get r cls
    .ok (ofEntry r classify cls { e with layout }, layouts)

end Plan

/-- The plans made so far. -/
abbrev Plans := Assoc ClassId Plan

namespace Plans

/-- The plan of a class, and the plans made so far with it among them. A plan is made once; if it
cannot be made, nothing is kept. -/
def get (r : Registry) (classify : Classifier) (cls : ClassId) (plans : Plans) :
    Except CloneError (Plan × Plans) :=
  match Assoc.find? cls plans with
  | some p => .ok (p, plans)
  | none => do
    let p ← Plan.make r classify cls
    .ok (p, Assoc.put cls p plans)

/-- Like `get`, with the layout of a new plan from those on demand. -/
def getWith (r : Registry) (classify : Classifier) (cls : ClassId) (layouts : Layouts)
    (plans : Plans) : Except CloneError (Plan × Layouts × Plans) :=
  match Assoc.find? cls plans with
  | some p => .ok (p, layouts, plans)
  | none => do
    let (p, layouts) ← Plan.makeWith r classify cls layouts
    .ok (p, layouts, Assoc.put cls p plans)

end Plans

end DeepCopy

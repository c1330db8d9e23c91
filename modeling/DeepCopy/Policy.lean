-- Policies: which objects are shared, which turn into nothing, which have a
-- routine of their own, and the switches. Whether a class lies below a shared
-- root is worked out once and remembered until another root is added.
import DeepCopy.Script

namespace DeepCopy

/-- Something that clones the objects of a class in place of the usual copying. -/
inductive Implementor where
  /-- Rebuilds a built-in container from its contents. -/
  | containers
  | script (s : Script)
  | routine (f : ObjectId → Routine)

/-- Makes implementors, and leaves notes in the journal each time. -/
structure Maker where
  notes : List Note := []
  implementor : Implementor

/-- The makers that classes can name. -/
abbrev Catalog := Assoc String Maker

/-- The name of the maker of container implementors. -/
def Catalog.containersName : String := "containers"

/-- The catalog before anything is registered. -/
def Catalog.initial : Catalog := [(containersName, { implementor := .containers })]

/-- The rules of a policy. -/
structure Policy where
  /-- Classes of wrappers, whose instances are shared. -/
  knownImmutables : List ClassId := []
  /-- Classes whose instances are shared as immutable. -/
  immutableClasses : List ClassId := []
  /-- Classes whose instances are shared as not cloneable. -/
  nonCloneableClasses : List ClassId := []
  /-- Classes whose instances, and those of all subclasses, are shared. -/
  nonCloneableRoots : List ClassId := []
  /-- Classes whose instances turn into null. -/
  nulledClasses : List ClassId := []
  /-- Objects that are shared. -/
  immutableObjects : List ObjectId := []
  /-- What clones the instances of exactly a class. -/
  overrides : Assoc ClassId Implementor := []
  flags : CloneFlags := {}

/-- For classes that were asked about, whether they lie below a shared root. -/
abbrev RootAnswers := Assoc ClassId Bool

namespace Policy

/-- The policy that clones all that can change and consults nothing. -/
def minimal : Policy := { flags := { cloneImmutable := true, useOverrides := false } }

/-- The policy to start from: instances of the value classes are shared, and containers are
rebuilt from their contents. -/
def standard : Policy :=
  { knownImmutables := Registry.valueClassIds
    overrides := Container.Kind.all.map fun kind => (Registry.containerClass kind, .containers) }

/-- Shares the instances of a class as those of a wrapper. -/
def addKnownImmutable (p : Policy) (cls : ClassId) : Policy :=
  { p with knownImmutables := p.knownImmutables.insert cls }

/-- Shares the instances of a class as immutable. -/
def addImmutable (p : Policy) (cls : ClassId) : Policy :=
  { p with immutableClasses := p.immutableClasses.insert cls }

/-- Shares the instances of a class as not cloneable. -/
def addNonCloneable (p : Policy) (cls : ClassId) : Policy :=
  { p with nonCloneableClasses := p.nonCloneableClasses.insert cls }

/-- Turns the instances of a class into null. -/
def addNulled (p : Policy) (cls : ClassId) : Policy :=
  { p with nulledClasses := p.nulledClasses.insert cls }

/-- Shares an object. -/
def addImmutableObject (p : Policy) (o : ObjectId) : Policy :=
  { p with immutableObjects := p.immutableObjects.insert o }

/-- Lets an implementor clone the instances of exactly a class. -/
def addOverride (p : Policy) (cls : ClassId) (i : Implementor) : Policy :=
  { p with overrides := Assoc.put cls i p.overrides }

/-- Takes the implementor of a class away. -/
def removeOverride (p : Policy) (cls : ClassId) : Policy :=
  { p with overrides := Assoc.without cls p.overrides }

/-- Shares the instances of a class and of all its subclasses. The answers about roots are
forgotten if the root is new. -/
def addNonCloneableRoot (p : Policy) (answers : RootAnswers) (cls : ClassId) :
    Policy × RootAnswers :=
  if cls ∈ p.nonCloneableRoots then (p, answers)
  else ({ p with nonCloneableRoots := p.nonCloneableRoots ++ [cls] }, [])

/-- Whether a class is a shared root or lies below one, in a registry as it is. -/
def belowRoot (p : Policy) (r : Registry) (cls : ClassId) : Bool :=
  p.nonCloneableRoots.any fun root => r.isSubclass cls root

/-- Whether a class lies below a shared root: the remembered answer, or one that is worked out and
remembered. -/
def askRoots (p : Policy) (r : Registry) (cls : ClassId) (answers : RootAnswers) :
    Bool × RootAnswers :=
  if p.nonCloneableRoots.isEmpty then (false, answers)
  else
    match Assoc.find? cls answers with
    | some answer => (answer, answers)
    | none => (p.belowRoot r cls, Assoc.put cls (p.belowRoot r cls) answers)

/-- Whether a class is in one of the three sets of shared classes. -/
def listsShared (p : Policy) (cls : ClassId) : Bool :=
  p.knownImmutables.contains cls || p.immutableClasses.contains cls ||
    p.nonCloneableClasses.contains cls

/-- Whether the instances of a class are shared. The roots are asked only if no set has it. -/
def sharesClass (p : Policy) (r : Registry) (cls : ClassId) (answers : RootAnswers) :
    Bool × RootAnswers :=
  if p.listsShared cls then (true, answers) else p.askRoots r cls answers

/-- Whether the instances of a class turn into null. -/
def nullsClass (p : Policy) (cls : ClassId) : Bool := p.nulledClasses.contains cls

/-- Whether an object is shared by itself. -/
def sharesObject (p : Policy) (o : ObjectId) : Bool := p.immutableObjects.contains o

/-- What clones the instances of exactly a class. -/
def override? (p : Policy) (cls : ClassId) : Option Implementor := Assoc.find? cls p.overrides

/-- Whether the policy resets a field instead of cloning it. -/
def resets (p : Policy) (marks : Marks) : Bool :=
  (marks.isTransient && !p.flags.cloneTransient) ||
    (marks.isAnnotated && !p.flags.cloneAnnotated) ||
    (marks.isSynthetic && !p.flags.cloneSynthetic)

end Policy

end DeepCopy

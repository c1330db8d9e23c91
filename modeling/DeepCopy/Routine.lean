-- Clone routines: what takes the place of the usual copying for a class. A
-- routine is a tree of requests to the running clone. Each request has its
-- replies, and for each reply the routine says how it goes on.
import DeepCopy.Backend

namespace DeepCopy

/-- The switches of a policy. -/
structure CloneFlags where
  /-- Transient fields are cloned and not reset. -/
  cloneTransient : Bool := true
  /-- Fields transient by annotation are cloned and not reset. -/
  cloneAnnotated : Bool := true
  /-- Instances of classes classified as immutable are cloned and not shared. -/
  cloneImmutable : Bool := false
  /-- Synthetic fields are cloned and not reset. -/
  cloneSynthetic : Bool := false
  /-- Classes with a self-copy method are cloned by it. -/
  useSelfCopy : Bool := false
  /-- Routines registered for a class are used. -/
  useOverrides : Bool := true
deriving DecidableEq, Repr

/-- What a routine or the maker of a routine can leave in the journal. -/
inductive Note where
  /-- The maker with this number was asked for a routine. -/
  | made (maker : Nat)
  /-- Whether an object has a copy, and which. -/
  | found (copy : Option Value)
  /-- How many objects have copies. -/
  | visited (count : Nat)
  | backend (kind : Backend.Kind)
  /-- The name of a class and how many fields its instances have. -/
  | plan (cls : String) (fields : Nat)
  | policy (cloneTransient useOverrides : Bool)
  | value (v : Value)
deriving DecidableEq, Repr

/-- What a routine can ask of the clone it runs in. -/
inductive Request where
  /-- Clone a value as any nested value is cloned. -/
  | clone (v : Value)
  /-- Clone every field of an instance into another of the same class. -/
  | cloneFields (source target : ObjectId)
  /-- Let a value stand for an object from now on. -/
  | register (source : ObjectId) (copy : Value)
  /-- The value that stands for an object. -/
  | copyOf (source : ObjectId)
  /-- How many objects have copies. -/
  | visited
  /-- A bare object of a class. -/
  | allocate (cls : ClassId)
  /-- The plan of a class. -/
  | plan (cls : ClassId)
  /-- The kind of the backend. -/
  | backend
  /-- The switches of the policy. -/
  | flags
  /-- An object as it is. -/
  | look (o : ObjectId)
  /-- A new object with a given body. -/
  | create (cls : ClassId) (body : Body)
  /-- Give an object another body. -/
  | overwrite (o : ObjectId) (body : Body)
  /-- Read a field by name. -/
  | getField (o : ObjectId) (name : String)
  /-- Write a field by name. -/
  | setField (o : ObjectId) (name : String) (v : Value)
  /-- Leave a note in the journal. -/
  | note (n : Note)

/-- What is replied to a request. -/
def Request.Reply : Request → Type
  | clone _ => Except CloneError Value
  | cloneFields _ _ => Except CloneError Unit
  | register _ _ => Unit
  | copyOf _ => Option Value
  | visited => Nat
  | allocate _ => Except CloneError ObjectId
  | plan _ => Except CloneError Plan
  | backend => Backend.Kind
  | flags => CloneFlags
  | look _ => Object
  | create _ _ => ObjectId
  | overwrite _ _ => Unit
  | getField _ _ => Except HeapError Value
  | setField _ _ _ => Except HeapError Unit
  | note _ => Unit

/-- A routine at work: it is done, or it asks and goes on from the reply. -/
inductive Routine where
  | finish (result : Except CloneError Value)
  | ask (request : Request) (next : request.Reply → Routine)

namespace Routine

/-- Fails. -/
def fail (e : CloneError) : Routine := finish (.error e)

/-- Goes on with what worked, and fails with what did not. -/
def onOk {α : Type} (next : α → Routine) : Except CloneError α → Routine
  | .ok a => next a
  | .error e => fail e

/-- Goes on with what worked on the heap, and fails with what did not. -/
def onHeap {α : Type} (next : α → Routine) : Except HeapError α → Routine
  | .ok a => next a
  | .error e => fail (.heap e)

/-- Clones an instance field by field: makes a bare copy, lets it stand for the source, and then
clones the fields into it. -/
def fieldByField (cls : ClassId) (source : ObjectId) : Routine :=
  ask (.allocate cls) <| onOk fun copy =>
    ask (.register source (.ref copy)) fun _ =>
      ask (.cloneFields source copy) <| onOk fun _ => finish (.ok (.ref copy))

end Routine

end DeepCopy

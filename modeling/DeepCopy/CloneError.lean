-- What can end a clone early, and how it is said. Every error ends the whole
-- operation.
import DeepCopy.HeapError

namespace DeepCopy

/-- What is wrong with how cloning was set up or asked for. -/
inductive ConfigFault where
  | unknownBackend (text : String)
  | notBoolean (setting text : String)
  | fastUnavailable
  | quickUnavailable
  | quickResult (kind : Value.Kind)
  | unknownRoutine (cls name : String)
  | cannotCopy (source target : String)
  | copyNeedsInstances (cls : String)
  | cannotCloneFields (source target : String)
  | other (text : String)
deriving DecidableEq, Repr

/-- Why a clone routine or a self-copy method failed: an error of the heap, or one from outside. -/
inductive DelegateFault where
  | heap (error : HeapError)
  | foreign (text : String)
deriving DecidableEq, Repr

/-- Errors of clone operations. -/
inductive CloneError where
  /-- The operation was not set up properly. -/
  | config (fault : ConfigFault)
  /-- A class could not be looked into. -/
  | introspection (cls : String) (cause : HeapError)
  /-- A bare object could not be made. -/
  | allocation (cls : String) (cause : HeapError)
  /-- A field or an element could not be read or written. -/
  | access (cls field : String) (object : ObjectId) (cause : HeapError)
  /-- A clone routine or a self-copy method failed. -/
  | delegate (cls : String) (cause : DelegateFault)
  /-- An error of the heap outside of any field. -/
  | heap (cause : HeapError)
deriving DecidableEq, Repr

/-- How an operation ends without a result. -/
inductive Stop where
  /-- It reports an error. -/
  | failed (error : CloneError)
  /-- It breaks off in the middle, with nothing to report. -/
  | aborted
  /-- It goes deeper than the traversal may. -/
  | tooDeep
deriving DecidableEq, Repr

/-! ## Wording -/

/-- What a fault of the set-up reads as. -/
def ConfigFault.message : ConfigFault → String
  | unknownBackend text => s!"unknown backend '{text}', expected auto, fast or portable"
  | notBoolean setting text => s!"{setting}: expected a boolean, got '{text}'"
  | fastUnavailable => "fast backend requested but raw field access is unavailable"
  | quickUnavailable => "quick cloner needs raw field access, which is unavailable"
  | quickResult kind => s!"quick clone produced {kind.name} for an object"
  | unknownRoutine cls name => s!"{cls} names unknown clone implementor '{name}'"
  | cannotCopy source target => s!"cannot copy {source} into {target}"
  | copyNeedsInstances cls => s!"copy into {cls} needs field-bearing instances"
  | cannotCloneFields source target => s!"cannot clone fields of {source} into {target}"
  | other text => text

/-- What the failure of a delegate reads as. -/
def DelegateFault.message : DelegateFault → String
  | heap error => error.message
  | foreign text => text

/-- The text of an error, where `showObject` writes an object's identity. -/
def CloneError.message (showObject : ObjectId → String) : CloneError → String
  | config fault => s!"ConfigError: {fault.message}"
  | introspection cls cause => s!"IntrospectionError: cannot introspect {cls}: {cause.message}"
  | allocation cls cause => s!"AllocationError: cannot allocate {cls}: {cause.message}"
  | access cls field object cause =>
    s!"AccessError: {cls}.{field} on object {showObject object}: {cause.message}"
  | delegate cls cause => s!"DelegateError: cloning {cls} failed: {cause.message}"
  | heap cause => cause.message

end DeepCopy

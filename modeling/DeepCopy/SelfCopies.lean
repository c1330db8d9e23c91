-- Self-copy methods that classes can be given.
import DeepCopy.ClassDecl

namespace DeepCopy.SelfCopies

/-- A new object of the same class that holds what the instance holds. Other objects are refused. -/
def shallow : SelfCopy := fun o h =>
  match h.body o with
  | .record block refs => (.ok h.size, h.add (Object.new (h.cls o) (.record block refs)))
  | _ => (.error (.other (.foreign "not an instance")), h)

/-- The object itself. -/
def itself : SelfCopy := fun o h => (.ok o, h)

/-- A new instance of the root class with no fields. -/
def bare : SelfCopy := fun _ h => (.ok h.size, h.add Object.nothing)

/-- Fails with an error from outside. -/
def failing : SelfCopy := fun _ h => (.error (.other (.foreign "disk on fire")), h)

/-- Fails with an error of cloning. -/
def refusing : SelfCopy := fun _ h => (.error (.clone (.config (.other "self-copy refused"))), h)

/-- Fails with an error of the heap. -/
def losing : SelfCopy := fun _ h => (.error (.other (.heap (.unknownClass "lost"))), h)

/-- The method of a name. -/
def named? : String → Option SelfCopy
  | "shallow" => some shallow
  | "same" => some itself
  | "empty" => some bare
  | "fail" => some failing
  | "fail_config" => some refusing
  | "fail_heap" => some losing
  | _ => none

end DeepCopy.SelfCopies

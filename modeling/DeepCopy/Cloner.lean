-- Cloners: an operation needs a backend, a store of plans, a mode and a policy,
-- and a cloner keeps them together from one operation to the next.
import DeepCopy.Config
import DeepCopy.Operation

namespace DeepCopy

/-- What a cloner is to its user. -/
inductive Facade where
  /-- It has a policy and follows all rules. -/
  | full
  /-- It copies plain data, always by the fast backend. -/
  | quick
  /-- It is only the traversal, with a policy handed in. -/
  | bare
deriving DecidableEq, Repr

/-- A cloner. Its plans are kept in a store that others may share, and so is the tally of a
portable backend. -/
structure Cloner where
  facade : Facade := .full
  /-- The tally of its portable backend, or none if it uses the fast one. -/
  portable : Option Nat
  /-- The store of its plans. -/
  store : Nat
  mode : Mode := .full
  policy : Policy := .standard
  answers : RootAnswers := []
  resolved : Assoc ClassId Implementor := []

namespace Cloner

/-- The kind of the backend in use. -/
def backendKind (c : Cloner) : Backend.Kind := if c.portable.isSome then .portable else .fast

/-- The cloner with its switches changed. -/
def mapFlags (c : Cloner) (f : CloneFlags → CloneFlags) : Cloner :=
  { c with policy := { c.policy with flags := f c.policy.flags } }

/-- The cloner with its policy changed. -/
def mapPolicy (c : Cloner) (f : Policy → Policy) : Cloner := { c with policy := f c.policy }

/-- Shares the instances of a class and of all its subclasses. -/
def addNonCloneableRoot (c : Cloner) (cls : ClassId) : Cloner :=
  let (policy, answers) := c.policy.addNonCloneableRoot c.answers cls
  { c with policy, answers }

/-- Whether the policy shares the instances of a class, and the cloner after it was asked. -/
def sharesClass (c : Cloner) (r : Registry) (cls : ClassId) : Bool × Cloner :=
  let (shared, answers) := c.policy.sharesClass r cls c.answers
  (shared, { c with answers })

end Cloner

end DeepCopy

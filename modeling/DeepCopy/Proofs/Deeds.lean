-- The traversal with a log of its deeds: what it asks of the map of copies, what
-- it registers there, and what it goes into. Who keeps the log may break the clone
-- off at any deed. If that is never done, the clone comes to the end that it comes
-- to without a log, and does the same.
import DeepCopy.Proofs.Descents

namespace DeepCopy

open CloneM

/-! ## Deeds -/

/-- What a clone does with the map of copies, and with the objects that it comes to. -/
inductive Deed where
  /-- It asks what stands for an object. -/
  | asks (o : ObjectId)
  /-- It begins to clone an object that nothing stands for. -/
  | enters (o : ObjectId)
  /-- It has let a value stand for an object. -/
  | registers (o : ObjectId) (copy : Value)
  /-- It is about to clone a value that it met in an object. -/
  | clones (o : ObjectId) (v : Value)
deriving DecidableEq, Repr

namespace Deed

/-- The object that a deed is done to. -/
def object : Deed → ObjectId
  | asks o | enters o | registers o _ | clones o _ => o

/-- A deed as notes in the journal. -/
def notes : Deed → List Note
  | asks o => [.value (.ref o), .found none]
  | enters o => [.value (.ref o), .visited 0]
  | registers o copy => [.value (.ref o), .found (some copy)]
  | clones o v => [.value (.ref o), .value v]

theorem length_notes (d : Deed) : d.notes.length = 2 := by
  cases d <;> rfl

theorem eq_of_notes {d d' : Deed} (h : d.notes = d'.notes) : d = d' := by
  cases d <;> cases d' <;> simp_all [notes]

/-- The journal tells which deeds it is of: if it is how another begins, so are the deeds. -/
theorem prefix_of_flatMap_notes {deeds deeds' : List Deed}
    (h : deeds.flatMap notes <+: deeds'.flatMap notes) : deeds <+: deeds' := by
  induction deeds generalizing deeds' with
  | nil => exact List.nil_prefix
  | cons d deeds ih =>
    obtain ⟨rest, h⟩ := h
    cases deeds' with
    | nil => cases d <;> cases h
    | cons d' deeds' =>
      rw [List.flatMap_cons, List.flatMap_cons, List.append_assoc] at h
      obtain ⟨hd, hrest⟩ := List.append_inj h (by rw [length_notes, length_notes])
      rw [eq_of_notes hd]
      exact List.cons_prefix_cons.mpr ⟨rfl, ih ⟨rest, hrest⟩⟩

/-- The run with a deed in its journal. -/
def notedIn (d : Deed) (run : Run) : Run := { run with journal := run.journal ++ d.notes }

/-- Writes a deed down. -/
def write (d : Deed) : CloneM Unit := CloneM.write d.notes

end Deed

/-- Each deed is written down, and the clone may be broken off there. -/
def Tells (tell : Deed → CloneM Unit) : Prop :=
  ∀ d run, tell d run = .ok () (d.notedIn run) ∨ tell d run = .error .aborted (d.notedIn run)

theorem tells_write : Tells Deed.write := fun _ _ => Or.inl rfl

/-! ## The traversal -/

section Telling

variable (tell : Deed → CloneM Unit)

/-- Asks what stands for an object, and tells of it. -/
def askTelling (o : ObjectId) : CloneM (Option Value) := do
  tell (.asks o)
  copyOf o

/-- Lets a value stand for an object, and tells of it. -/
def registerTelling (o : ObjectId) (copy : Value) : CloneM Unit := do
  register o copy
  tell (.registers o copy)

/-- Clones a value that was met in an object, and tells of it first. -/
def cloneMet (nested : Value → CloneM Value) (source : ObjectId) (v : Value) : CloneM Value := do
  tell (.clones source v)
  nested v

end Telling

/-- Clones a value and logs what is done. Of what a routine does only the values are logged that it
has cloned, and of what a self-copy method does nothing. -/
def cloneTelling (s : Setting) (tell : Deed → CloneM Unit) : (depth : Nat) → Value → CloneM Value
  | depth, .ref o => do
    match ← askTelling tell o with
    | some copy => pure copy
    | none =>
      match depth with
      | 0 => throw .tooDeep
      | depth + 1 => do
        tell (.enters o)
        s.cloneNewBy (cloneMet tell (cloneTelling s tell depth) o) (askTelling tell)
          (registerTelling tell) o
  | _, v => pure v

/-! ## Nothing else is done -/

/-- A deed that is written down first makes no difference. -/
theorem Echoes.of_told {α : Type} {x y : CloneM α} (h : Echoes x y) (d : Deed) :
    Echoes (d.write >>= fun _ => x) y := by
  rintro a _ ⟨journal, rfl⟩
  exact h (d.notedIn a) _ ⟨journal, rfl⟩

theorem echoes_askTelling (o : ObjectId) : Echoes (askTelling Deed.write o) (copyOf o) :=
  (echoes_copyOf o).of_told _

theorem echoes_registerTelling (o : ObjectId) (copy : Value) :
    Echoes (registerTelling Deed.write o copy) (register o copy) := by
  rintro a _ ⟨journal, rfl⟩
  exact ⟨_, rfl, journal, rfl⟩

theorem echoes_cloneMet {nested nested' : Value → CloneM Value}
    (hn : ∀ v, Echoes (nested v) (nested' v)) (source : ObjectId) (v : Value) :
    Echoes (cloneMet Deed.write nested source v) (nested' v) := (hn v).of_told _

/-- The traversal with a log does what the traversal does. -/
theorem Setting.echoes_cloneTelling {s : Setting} (depth : Nat) (v : Value) :
    Echoes (cloneTelling s.silent Deed.write depth v) (cloneValue s depth v) := by
  induction depth generalizing v with
  | zero =>
    cases v with
    | ref o =>
      unfold cloneTelling cloneValue
      refine (echoes_askTelling o).bind fun found => ?_
      cases found with
      | some copy => exact echoes_pure copy
      | none => exact echoes_throw _
    | _ =>
      unfold cloneTelling cloneValue
      exact echoes_pure _
  | succ depth ih =>
    cases v with
    | ref o =>
      unfold cloneTelling cloneValue
      refine (echoes_askTelling o).bind fun found => ?_
      cases found with
      | some copy => exact echoes_pure copy
      | none =>
        exact (echoes_cloneNewBy (echoes_cloneMet ih o) echoes_askTelling echoes_registerTelling
          o).of_told _
    | _ =>
      unfold cloneTelling cloneValue
      exact echoes_pure _

end DeepCopy

-- Layouts: where the instances of a class keep their fields. The fields of the
-- superclass come first and stay where they are; each new primitive goes to the
-- next offset that is a multiple of its width, each other field to the next slot.
import DeepCopy.ClassDecl
import DeepCopy.Place

namespace DeepCopy

/-- A field of instances: who declares it, and where it is kept. -/
structure Field where
  declaring : ClassId
  /-- The name of the declaring class. -/
  declaringName : String
  name : String
  type : FieldType
  place : Place
  marks : Marks
deriving DecidableEq, Repr

/-- The layout of the instances of a class. -/
structure Layout where
  cls : ClassId
  blockSize : Nat := 0
  slotCount : Nat := 0
  fields : List Field := []
deriving DecidableEq, Repr

/-- The least multiple of `width` that is not below `offset`. -/
def alignUp (offset width : Nat) : Nat := (offset + (width - 1)) / width * width

namespace Layout

/-- The layout with one more field behind the others. -/
def addField (declaring : ClassId) (declaringName : String) (l : Layout) (d : FieldDecl) : Layout :=
  match d.type with
  | .primitive kind =>
    let offset := alignUp l.blockSize kind.width
    { l with
      blockSize := offset + kind.width
      fields := l.fields ++
        [⟨declaring, declaringName, d.name, d.type, .bytes offset kind, d.marks⟩] }
  | .object _ | .array _ =>
    { l with
      slotCount := l.slotCount + 1
      fields := l.fields ++
        [⟨declaring, declaringName, d.name, d.type, .slot l.slotCount, d.marks⟩] }

/-- The layout with the fields that a class declares for its instances. -/
def addFields (declaring : ClassId) (decl : ClassDecl) (l : Layout) : Layout :=
  (decl.fields.filter fun d => !d.marks.isStatic).foldl (addField declaring decl.name) l

/-- The layout of a class over that of its superclass. Arrays and containers have no fields. -/
def ofDecl (cls : ClassId) (decl : ClassDecl) (parent : Option Layout) : Layout :=
  if decl.kind.isBuiltIn then { cls }
  else addFields cls decl { (parent.getD { cls }) with cls }

/-- The field of a name: the one declared last, so that a subclass hides what it inherits. -/
def field? (l : Layout) (name : String) : Option Field :=
  (l.fields.filter fun f => f.name == name).getLast?

/-- The field of a name, or the error that there is none. -/
def field (l : Layout) (name : String) : Except HeapError Field :=
  match l.field? name with
  | some f => .ok f
  | none => .error (.noSuchField l.cls.text name)

end Layout

/-! ## Laws -/

theorem le_alignUp (offset : Nat) {width : Nat} (h : 0 < width) :
    offset ≤ alignUp offset width := by
  unfold alignUp
  have := Nat.div_add_mod (offset + (width - 1)) width
  have := Nat.mod_lt (offset + (width - 1)) h
  rw [Nat.mul_comm]
  omega

theorem dvd_alignUp (offset width : Nat) : width ∣ alignUp offset width :=
  Nat.dvd_mul_left _ _

end DeepCopy

-- The registry of classes, with an index of their names. Classes are only ever
-- added, each after all classes it mentions, and each gets its layout when it is
-- added. A registry starts with the root class, five value classes and the
-- container classes. A layout can also be worked out from the definitions alone,
-- when it is first asked for, and kept from then on.
import DeepCopy.Assoc
import DeepCopy.Layout

namespace DeepCopy

/-- A registered class with the layout of its instances. -/
structure Registry.Entry where
  decl : ClassDecl
  layout : Layout

/-- All classes, the oldest first, and where their names are looked up. A class's place is its
identifier. -/
structure Registry where
  entries : Array Registry.Entry
  /-- The identifiers of the classes by name. -/
  index : Assoc String ClassId

namespace Registry

/-- The root class, which every concrete class extends. -/
def rootClass : ClassId := 0

/-- How many classes there are. -/
def size (r : Registry) : Nat := r.entries.size

/-- A registered class. -/
def get? (r : Registry) (id : ClassId) : Option Entry := r.entries[id]?

/-- A registered class, or the error that it is unknown. -/
def entry (r : Registry) (id : ClassId) : Except HeapError Entry :=
  match r.get? id with
  | some e => .ok e
  | none => .error (.unknownClass id.text)

/-- The definition of a class. -/
def decl (r : Registry) (id : ClassId) : Except HeapError ClassDecl := (·.decl) <$> r.entry id

/-- The layout of a class's instances. -/
def layout (r : Registry) (id : ClassId) : Except HeapError Layout := (·.layout) <$> r.entry id

/-- The class of a name. -/
def lookup (r : Registry) (name : String) : Option ClassId := Assoc.find? name r.index

/-- The name of a class, or its identifier if it is not registered. -/
def className (r : Registry) (id : ClassId) : String :=
  match r.get? id with
  | some e => e.decl.name
  | none => id.text

/-- The superclass of a registered class. -/
def superclass? (r : Registry) (id : ClassId) : Option ClassId :=
  (r.get? id).bind (·.decl.superclass)

/-- The layout of a class that is about to be added. -/
def layoutOf (r : Registry) (id : ClassId) (decl : ClassDecl) : Layout :=
  Layout.ofDecl id decl (decl.superclass.bind fun parent => (r.get? parent).map (·.layout))

/-- The registry with one more class. Its identifier is the old size. -/
def add (r : Registry) (decl : ClassDecl) : Registry :=
  { entries := r.entries.push ⟨decl, r.layoutOf r.size decl⟩
    index := Assoc.put decl.name r.size r.index }

/-! ## The classes a registry starts with -/

/-- A value class with primitive fields. -/
def valueClass (name : String) (fields : List (String × Primitive.Kind)) : ClassDecl :=
  { name, superclass := some rootClass
    fields := fields.map fun (field, kind) => { name := field, type := .primitive kind } }

/-- The value classes, whose instances count as immutable. -/
def valueClasses : List ClassDecl :=
  [ valueClass "Decimal" [("unscaled", .i64), ("scale", .i32)],
    valueClass "Uuid" [("high", .i64), ("low", .i64)],
    valueClass "Instant" [("seconds", .i64), ("nanos", .i32)],
    valueClass "Duration" [("seconds", .i64), ("nanos", .i32)],
    { name := "Locale", superclass := some rootClass
      fields := [{ name := "tag", type := .object rootClass }] } ]

/-- The classes of built-in containers. -/
def containerClasses : List ClassDecl :=
  Container.Kind.all.map fun kind =>
    { name := kind.className, kind := .container kind, superclass := some rootClass }

/-- The registry before any class is defined. -/
def initial : Registry :=
  (({ name := "Object" } : ClassDecl) :: valueClasses ++ containerClasses).foldl add ⟨#[], []⟩

/-- The identifiers of the value classes. -/
def valueClassIds : List ClassId := [1, 2, 3, 4, 5]

/-- The class of a kind of container. -/
def containerClass : Container.Kind → ClassId
  | .arrayList => 6
  | .linkedList => 7
  | .hashSet => 8
  | .hashMap => 9
  | .treeMap => 10
  | .calendar => 11

/-! ## Adding classes -/

/-- The superclass a definition gets: none for an interface, and the root class where none is
said. Only concrete and abstract classes can be extended. -/
def resolveSuperclass (r : Registry) (d : ClassDecl) : Except HeapError (Option ClassId) :=
  match d.kind with
  | .array _ | .container _ => .error (.invalidDefinition d.name .builtInKind)
  | .interface =>
    if d.fields.any fun f => !f.marks.isStatic then
      .error (.invalidDefinition d.name .interfaceField)
    else .ok none
  | .concrete | .abstract | .enum => do
    let parent := d.superclass.getD rootClass
    let p ← r.decl parent
    if p.kind.isExtensible then .ok (some parent)
    else .error (.invalidDefinition d.name (.cannotExtend p.name))

/-- The first fault among the fields of a class: a name used twice, a class that is not there, or
an array field whose class is no array class. -/
def checkFields (r : Registry) (cls : String) :
    (earlier : List String) → List FieldDecl → Except HeapError Unit
  | _, [] => .ok ()
  | earlier, f :: fs => do
    if f.name ∈ earlier then .error (.invalidDefinition cls (.duplicateField f.name))
    match f.type with
    | .primitive _ => .ok ()
    | .object target => if target < r.size then .ok () else .error (.unknownClass target.text)
    | .array target =>
      match r.get? target with
      | some e =>
        if e.decl.kind.isArray then .ok ()
        else .error (.invalidDefinition cls (.notArrayField f.name))
      | none => .error (.invalidDefinition cls (.notArrayField f.name))
    checkFields r cls (f.name :: earlier) fs

/-- The registry with a class defined in it, and the class. -/
def define (r : Registry) (d : ClassDecl) : Except HeapError (ClassId × Registry) := do
  if (r.lookup d.name).isSome then .error (.duplicateClass d.name)
  let superclass ← r.resolveSuperclass d
  r.checkFields d.name [] d.fields
  .ok (r.size, r.add { d with superclass })

/-- The name of the class of arrays of a component. -/
def arrayName (r : Registry) : Component → Except HeapError String
  | .primitive kind => .ok s!"{kind.name}[]"
  | .reference cls => do
    let d ← r.decl cls
    .ok s!"{d.name}[]"

/-- The class of arrays of a component. It is known by its name: a class of that name, of whatever
kind, is the answer, and only if there is none is an array class added. -/
def arrayOf (r : Registry) (component : Component) : Except HeapError (ClassId × Registry) := do
  let name ← r.arrayName component
  match r.lookup name with
  | some id => .ok (id, r)
  | none =>
    .ok (r.size, r.add { name, kind := .array component, superclass := some rootClass })

/-! ## Ancestry -/

/-- A class and its superclasses, as far as `links` reach. -/
def climb (r : Registry) : (links : Nat) → ClassId → Except HeapError (List ClassId)
  | 0, _ => .ok []
  | links + 1, id => do
    let d ← r.decl id
    match d.superclass with
    | none => .ok [id]
    | some parent => do
      let above ← r.climb links parent
      .ok (id :: above)

/-- A class followed by its superclasses. A superclass is older than the class, so there are no
more links than the identifier says. -/
def ancestors (r : Registry) (id : ClassId) : Except HeapError (List ClassId) := r.climb (id + 1) id

/-- Whether a class is the same as or a subclass of another. -/
def isSubclass (r : Registry) (id ancestor : ClassId) : Bool :=
  match r.ancestors id with
  | .ok chain => chain.contains ancestor
  | .error _ => false

/-! ## Layouts on demand -/

/-- A layout with the fields of one more class behind the others. -/
def stackFields (r : Registry) (l : Layout) (cls : ClassId) : Except HeapError Layout :=
  (l.addFields cls ·) <$> r.decl cls

/-- The layout of a class, worked out from the definitions: the fields of its ancestors, the root
first, and its own at the end. -/
def build (r : Registry) (id : ClassId) : Except HeapError Layout := do
  let d ← r.decl id
  if d.kind.isBuiltIn then .ok { cls := id }
  else do
    let chain ← r.ancestors id
    chain.reverse.foldlM r.stackFields { cls := id }

end Registry

/-- The layouts worked out so far. -/
abbrev Layouts := Assoc ClassId Layout

/-- The layout of a class, and the layouts worked out so far with it among them. A layout is worked
out once; if that fails, nothing is kept. -/
def Layouts.get (r : Registry) (cls : ClassId) (layouts : Layouts) :
    Except HeapError (Layout × Layouts) :=
  match Assoc.find? cls layouts with
  | some l => .ok (l, layouts)
  | none => do
    let l ← r.build cls
    .ok (l, Assoc.put cls l layouts)

namespace Registry

/-- The constant of an enum class with a name. -/
def enumConstant (r : Registry) (cls : ClassId) (name : String) : Except HeapError Value := do
  let d ← r.decl cls
  match d.constants.findIdx? (· == name) with
  | some ordinal => .ok (.constant ⟨cls, ordinal, name⟩)
  | none => .error (.noSuchField d.name name)

/-! ## Laws -/

example : initial.size = 12 := by decide
example : valueClassIds.map initial.className = valueClasses.map (·.name) := by decide
example : Container.Kind.all.map (fun k => initial.className (containerClass k)) =
    Container.Kind.all.map Container.Kind.className := by decide

@[simp] theorem size_add (r : Registry) (d : ClassDecl) : (r.add d).size = r.size + 1 := by
  simp [add, size]

theorem get?_add_of_lt {r : Registry} {id : ClassId} (d : ClassDecl) (h : id < r.size) :
    (r.add d).get? id = r.get? id := by
  have h' : id < r.entries.size := h
  simp [add, get?, Array.getElem?_push, Nat.ne_of_lt h']

theorem get?_add_new (r : Registry) (d : ClassDecl) :
    (r.add d).get? r.size = some ⟨d, r.layoutOf r.size d⟩ := by
  simp [add, get?, size]

/-- A class of the larger registry is an old one or the new one. -/
theorem get?_add {r : Registry} {d : ClassDecl} {id : ClassId} {e : Entry}
    (h : (r.add d).get? id = some e) :
    (id < r.size ∧ r.get? id = some e) ∨ (id = r.size ∧ e = ⟨d, r.layoutOf r.size d⟩) := by
  by_cases hlt : id < r.size
  · rw [get?_add_of_lt d hlt] at h
    exact Or.inl ⟨hlt, h⟩
  · by_cases heq : id = r.size
    · subst heq
      rw [get?_add_new] at h
      exact Or.inr ⟨rfl, (Option.some.inj h).symm⟩
    · have hge : (r.add d).size ≤ id := by
        rw [size_add]
        exact Nat.lt_of_le_of_ne (Nat.not_lt.mp hlt) (Ne.symm heq)
      unfold get? at h
      rw [Array.getElem?_eq_none hge] at h
      cases h

end Registry

end DeepCopy

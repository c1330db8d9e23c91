-- Where fields lie. In the layout of every registered class each field has a
-- place of the sort its type asks for, inside the instance, no two fields share
-- a place, and every slot is of some field. So it is from the first registry on,
-- whatever classes are added.
import DeepCopy.Registry

namespace DeepCopy

/-! ## Places -/

namespace Place

/-- Two places share no byte and are not one slot. -/
def Apart : Place → Place → Prop
  | .bytes offset kind, .bytes offset' kind' =>
    offset + kind.width ≤ offset' ∨ offset' + kind'.width ≤ offset
  | .slot index, .slot index' => index ≠ index'
  | _, _ => True

/-- A place lies in an instance of a size. -/
def Within (blockSize slotCount : Nat) : Place → Prop
  | .bytes offset kind => offset + kind.width ≤ blockSize
  | .slot index => index < slotCount

/-- A byte of the block belongs to a place. -/
def Covers (i : Nat) : Place → Prop
  | .bytes offset kind => offset ≤ i ∧ i < offset + kind.width
  | .slot _ => False

theorem Apart.symm {p q : Place} (h : p.Apart q) : q.Apart p := by
  cases p <;> cases q
  · exact Or.symm h
  · trivial
  · trivial
  · exact Ne.symm h

theorem Within.mono {p : Place} {b b' n n' : Nat} (h : p.Within b n) (hb : b ≤ b') (hn : n ≤ n') :
    p.Within b' n' := by
  cases p with
  | bytes offset kind => exact Nat.le_trans h hb
  | slot index => exact Nat.lt_of_lt_of_le h hn

end Place

/-- A place is of the sort that a type asks for. -/
def FieldType.Suits : FieldType → Place → Prop
  | .primitive kind, .bytes _ kind' => kind' = kind
  | .object _, .slot _ => True
  | .array _, .slot _ => True
  | _, _ => False

theorem FieldType.category_of_suits_bytes {t : FieldType} {offset : Nat} {kind : Primitive.Kind}
    (h : t.Suits (.bytes offset kind)) : t.category = .primitive := by
  cases t with
  | primitive => rfl
  | object => exact h.elim
  | array => exact h.elim

theorem FieldType.category_of_suits_slot {t : FieldType} {index : Nat}
    (h : t.Suits (.slot index)) : t.category ≠ .primitive := by
  cases t with
  | primitive => exact h.elim
  | object => simp [category]
  | array => simp [category]

/-! ## Layouts -/

/-- Each field has a place of its own, of the right sort and inside the instance. -/
structure Layout.Sound (l : Layout) : Prop where
  suits : ∀ f ∈ l.fields, f.type.Suits f.place
  within : ∀ f ∈ l.fields, f.place.Within l.blockSize l.slotCount
  apart : l.fields.Pairwise fun f g => f.place.Apart g.place

namespace Layout

section Sound

variable {l : Layout} {f : Field} {offset index : Nat} {kind : Primitive.Kind}

theorem Sound.bytes_within (h : l.Sound) (hf : f ∈ l.fields) (hp : f.place = .bytes offset kind) :
    offset + kind.width ≤ l.blockSize := by
  have hin := h.within f hf
  rw [hp] at hin
  exact hin

theorem Sound.slot_within (h : l.Sound) (hf : f ∈ l.fields) (hp : f.place = .slot index) :
    index < l.slotCount := by
  have hin := h.within f hf
  rw [hp] at hin
  exact hin

/-- Primitives are in the block, and nothing else is. -/
theorem Sound.category_of_bytes (h : l.Sound) (hf : f ∈ l.fields)
    (hp : f.place = .bytes offset kind) : f.type.category = .primitive := by
  have hsuits := h.suits f hf
  rw [hp] at hsuits
  exact FieldType.category_of_suits_bytes hsuits

theorem Sound.category_of_slot (h : l.Sound) (hf : f ∈ l.fields) (hp : f.place = .slot index) :
    f.type.category ≠ .primitive := by
  have hsuits := h.suits f hf
  rw [hp] at hsuits
  exact FieldType.category_of_suits_slot hsuits

end Sound

theorem sound_bare (cls : ClassId) : Sound { cls } := by
  refine ⟨?_, ?_, ?_⟩
  · intro f hf
    cases hf
  · intro f hf
    cases hf
  · exact List.Pairwise.nil

/-- Two fields are one or lie apart. -/
theorem Sound.eq_or_apart {l : Layout} (h : l.Sound) {f g : Field} (hf : f ∈ l.fields)
    (hg : g ∈ l.fields) : f = g ∨ f.place.Apart g.place := by
  refine List.Pairwise.forall_of_forall_of_flip (R := fun f g => f = g ∨ f.place.Apart g.place)
    (fun _ _ => Or.inl rfl) ?_ ?_ hf hg
  · exact h.apart.imp Or.inr
  · exact h.apart.imp fun h => Or.inr h.symm

/-- A field that is put behind the others, where a place starts at or after the old ends. -/
theorem Sound.append {l : Layout} (h : l.Sound) {f : Field} {blockSize slotCount : Nat}
    (hb : l.blockSize ≤ blockSize) (hn : l.slotCount ≤ slotCount) (suits : f.type.Suits f.place)
    (within : f.place.Within blockSize slotCount)
    (behind : ∀ p : Place, p.Within l.blockSize l.slotCount → p.Apart f.place) :
    Sound { l with blockSize, slotCount, fields := l.fields ++ [f] } := by
  refine ⟨?_, ?_, ?_⟩
  · intro g hg
    rcases List.mem_append.mp hg with hg | hg
    · exact h.suits g hg
    · exact List.mem_singleton.mp hg ▸ suits
  · intro g hg
    rcases List.mem_append.mp hg with hg | hg
    · exact (h.within g hg).mono hb hn
    · exact List.mem_singleton.mp hg ▸ within
  · refine List.pairwise_append.mpr ⟨h.apart, List.pairwise_singleton _ _, ?_⟩
    intro g hg f' hf
    rw [List.mem_singleton.mp hf]
    exact behind _ (h.within g hg)

theorem sound_addField {l : Layout} (h : l.Sound) (cls : ClassId) (name : String)
    (d : FieldDecl) : (l.addField cls name d).Sound := by
  have slot : ∀ p : Place, p.Within l.blockSize l.slotCount → p.Apart (.slot l.slotCount) := by
    intro p hp
    cases p with
    | bytes offset kind => trivial
    | slot index => exact Nat.ne_of_lt hp
  unfold addField
  split
  · rename_i kind hk
    have hle := le_alignUp l.blockSize kind.width_pos
    refine h.append (Nat.le_trans hle (Nat.le_add_right _ _)) (Nat.le_refl _) ?_ (Nat.le_refl _) ?_
    · simp only [hk, FieldType.Suits]
    · intro p hp
      cases p with
      | bytes offset kind' => exact Or.inl (Nat.le_trans hp hle)
      | slot index => trivial
  · rename_i c hk
    refine h.append (Nat.le_refl _) (Nat.le_succ _) ?_ (Nat.lt_succ_self _) slot
    simp only [hk, FieldType.Suits]
  · rename_i c hk
    refine h.append (Nat.le_refl _) (Nat.le_succ _) ?_ (Nat.lt_succ_self _) slot
    simp only [hk, FieldType.Suits]

/-- Every slot is the place of a field. -/
def Full (l : Layout) : Prop := ∀ i < l.slotCount, ∃ f ∈ l.fields, f.place = .slot i

theorem full_addField {l : Layout} (h : l.Full) (cls : ClassId) (name : String) (d : FieldDecl) :
    (l.addField cls name d).Full := by
  have slot : ∀ f : Field, f.place = .slot l.slotCount → ∀ i < l.slotCount + 1,
      ∃ g ∈ l.fields ++ [f], g.place = .slot i := by
    intro f hf i hi
    rcases Nat.lt_succ_iff_lt_or_eq.mp hi with hi | rfl
    · obtain ⟨g, hg, hp⟩ := h i hi
      exact ⟨g, List.mem_append_left _ hg, hp⟩
    · exact ⟨f, List.mem_append_right _ List.mem_cons_self, hf⟩
  unfold addField
  split
  · intro i hi
    obtain ⟨g, hg, hp⟩ := h i hi
    exact ⟨g, List.mem_append_left _ hg, hp⟩
  · exact slot _ rfl
  · exact slot _ rfl

/-- A property that every layout has: the bare one has it, and it stays as fields are added. -/
structure Inherited (P : Layout → Prop) : Prop where
  bare : ∀ cls, P { cls }
  retitled : ∀ l cls, P l → P { l with cls }
  addField : ∀ l cls name d, P l → P (l.addField cls name d)

section Inherited

variable {P : Layout → Prop} (hP : Inherited P)
include hP

theorem Inherited.addFields {l : Layout} (h : P l) (cls : ClassId) (d : ClassDecl) :
    P (l.addFields cls d) := by
  unfold Layout.addFields
  generalize d.fields.filter (fun f => !f.marks.isStatic) = fs
  induction fs generalizing l with
  | nil => exact h
  | cons f fs ih => exact ih (hP.addField l cls d.name f h)

/-- A layout has what the layout it is over has. -/
theorem Inherited.ofDecl (cls : ClassId) (d : ClassDecl) {parent : Option Layout}
    (h : ∀ l, parent = some l → P l) : P (ofDecl cls d parent) := by
  unfold Layout.ofDecl
  split
  · exact hP.bare cls
  · refine hP.addFields ?_ cls d
    cases parent with
    | none => exact hP.bare cls
    | some l => exact hP.retitled l cls (h l rfl)

end Inherited

theorem inherited_sound : Inherited Sound where
  bare := sound_bare
  retitled := fun _ _ h => ⟨h.suits, h.within, h.apart⟩
  addField := fun _ cls name d h => sound_addField h cls name d

theorem inherited_full : Inherited Full where
  bare := fun _ _ hi => absurd hi (Nat.not_lt_zero _)
  retitled := fun _ _ h => h
  addField := fun _ cls name d h => full_addField h cls name d

end Layout

/-! ## Registries -/

/-- The layouts of all classes are sound, and every kind of container has its class. -/
structure Registry.Sound (r : Registry) : Prop where
  layouts : ∀ id e, r.get? id = some e → e.layout.Sound
  containers : ∀ kind, ∃ e, r.get? (containerClass kind) = some e ∧ e.decl.kind = .container kind

/-- Every class of a registry is a class of another, with the same definition and layout. -/
def Registry.Extends (r r' : Registry) : Prop := ∀ id e, r.get? id = some e → r'.get? id = some e

namespace Registry

variable {r r' : Registry}

theorem Extends.refl (r : Registry) : r.Extends r := fun _ _ h => h

theorem Extends.trans {r'' : Registry} (h : r.Extends r') (h' : r'.Extends r'') : r.Extends r'' :=
  fun id e he => h' id e (h id e he)

theorem lt_size_of_get? {id : ClassId} {e : Entry} (h : r.get? id = some e) : id < r.size :=
  (Array.getElem?_eq_some_iff.mp h).1

theorem extends_add (r : Registry) (d : ClassDecl) : r.Extends (r.add d) := by
  intro id e h
  rw [get?_add_of_lt d (lt_size_of_get? h)]
  exact h

/-- The layouts of all classes have a property. -/
def Each (P : Layout → Prop) (r : Registry) : Prop := ∀ id e, r.get? id = some e → P e.layout

section Each

variable {P : Layout → Prop} (hP : Layout.Inherited P)
include hP

theorem Each.layoutOf (h : r.Each P) (id : ClassId) (d : ClassDecl) : P (r.layoutOf id d) := by
  apply hP.ofDecl id d
  intro l hl
  cases hs : d.superclass with
  | none => simp [hs] at hl
  | some parent =>
    cases he : r.get? parent with
    | none => simp [hs, he] at hl
    | some e =>
      simp only [hs, he, Option.bind_some, Option.map_some, Option.some.injEq] at hl
      exact hl ▸ h parent e he

theorem Each.add (h : r.Each P) (d : ClassDecl) : (r.add d).Each P := by
  intro id e he
  rcases get?_add he with ⟨-, he⟩ | ⟨-, rfl⟩
  · exact h id e he
  · exact h.layoutOf hP _ d

theorem Each.foldl (ds : List ClassDecl) (h : r.Each P) : (ds.foldl Registry.add r).Each P := by
  induction ds generalizing r with
  | nil => exact h
  | cons d ds ih => exact ih (h.add hP d)

theorem each_initial : initial.Each P := by
  apply Each.foldl hP
  intro id e h
  cases h

end Each

theorem Sound.add (h : r.Sound) (d : ClassDecl) : (r.add d).Sound := by
  refine ⟨Each.add Layout.inherited_sound h.layouts d, ?_⟩
  intro kind
  obtain ⟨e, he, hk⟩ := h.containers kind
  exact ⟨e, extends_add r d _ e he, hk⟩

theorem sound_initial : initial.Sound := by
  refine ⟨each_initial Layout.inherited_sound, ?_⟩
  intro kind
  have h : (initial.get? (containerClass kind)).map (·.decl.kind) = some (.container kind) := by
    cases kind <;> decide
  exact Option.map_eq_some_iff.mp h

/-- A class that is defined is added behind the others, with its superclass made out. -/
theorem eq_add_of_define {d : ClassDecl} {id : ClassId} (h : r.define d = .ok (id, r')) :
    id = r.size ∧ ∃ superclass, r.resolveSuperclass d = .ok superclass ∧
      r.checkFields d.name [] d.fields = .ok () ∧ r' = r.add { d with superclass } := by
  unfold define at h
  split at h
  · cases h
  · cases hs : r.resolveSuperclass d with
    | error e =>
      rw [hs] at h
      cases h
    | ok superclass =>
      cases hf : r.checkFields d.name [] d.fields with
      | error e =>
        rw [hs, hf] at h
        cases h
      | ok u =>
        rw [hs, hf] at h
        cases h
        exact ⟨rfl, superclass, rfl, rfl, rfl⟩

theorem define_eq {d : ClassDecl} {superclass : Option ClassId} (hl : r.lookup d.name = none)
    (hs : r.resolveSuperclass d = .ok superclass) (hf : r.checkFields d.name [] d.fields = .ok ()) :
    r.define d = .ok (r.size, r.add { d with superclass }) := by
  simp only [define, hl, hs, hf]
  rfl

/-- The class of arrays of a component is there, or it is added behind the others. -/
theorem eq_add_of_arrayOf {c : Component} {id : ClassId} (h : r.arrayOf c = .ok (id, r')) :
    r' = r ∨ ∃ name, r' = r.add
      { name, kind := .array c, superclass := some rootClass } := by
  unfold arrayOf at h
  cases hn : r.arrayName c with
  | error e =>
    rw [hn] at h
    cases h
  | ok name =>
    simp only [hn, bind, Except.bind] at h
    split at h
    · cases h
      exact Or.inl rfl
    · cases h
      exact Or.inr ⟨name, rfl⟩

/-- A registry as it comes about: classes are defined and array classes are asked for. -/
inductive Built : Registry → Prop where
  | initial : Built initial
  | define {r r' : Registry} {d : ClassDecl} {id : ClassId} (h : Built r)
    (hd : r.define d = .ok (id, r')) : Built r'
  | arrayOf {r r' : Registry} {c : Component} {id : ClassId} (h : Built r)
    (hc : r.arrayOf c = .ok (id, r')) : Built r'

theorem Built.sound (h : r.Built) : r.Sound := by
  induction h with
  | initial => exact sound_initial
  | define _ hd ih =>
    obtain ⟨-, superclass, -, -, rfl⟩ := eq_add_of_define hd
    exact ih.add _
  | arrayOf _ hc ih =>
    rcases eq_add_of_arrayOf hc with rfl | ⟨name, rfl⟩
    · exact ih
    · exact ih.add _

/-- Every layout of a registry that has come about has what all layouts have. -/
theorem Built.each {P : Layout → Prop} (hP : Layout.Inherited P) (h : r.Built) : r.Each P := by
  induction h with
  | initial => exact each_initial hP
  | define _ hd ih =>
    obtain ⟨-, superclass, -, -, rfl⟩ := eq_add_of_define hd
    exact ih.add hP _
  | arrayOf _ hc ih =>
    rcases eq_add_of_arrayOf hc with rfl | ⟨name, rfl⟩
    · exact ih
    · exact ih.add hP _

theorem initial_selfCopy {id : ClassId} {e : Entry} (h : initial.get? id = some e) :
    e.decl.selfCopy = none := by
  have hall : initial.entries.toList.all (·.decl.selfCopy.isNone) = true := by decide
  have hm := Array.mem_toList_iff.mpr (Array.mem_of_getElem? h)
  exact Option.isNone_iff_eq_none.mp (List.all_eq_true.mp hall e hm)

theorem initial_kind {id : ClassId} {e : Entry} (h : initial.get? id = some e) :
    e.decl.kind.isArray = false := by
  have hall : ∀ e ∈ initial.entries.toList, e.decl.kind.isArray = false := by decide
  exact hall e (Array.mem_toList_iff.mpr (Array.mem_of_getElem? h))

/-- Array classes cannot be defined. They have nothing but a name and a component. -/
theorem Built.decl_of_array (h : r.Built) {id : ClassId} {e : Entry}
    (he : r.get? id = some e) {c : Component} (hk : e.decl.kind = .array c) :
    ∃ name, e.decl = { name, kind := .array c, superclass := some rootClass } := by
  induction h generalizing id e with
  | initial =>
    have hno := initial_kind he
    rw [hk] at hno
    cases hno
  | define _ hd ih =>
    obtain ⟨-, superclass, hs, -, rfl⟩ := eq_add_of_define hd
    rcases get?_add he with ⟨-, he⟩ | ⟨-, rfl⟩
    · exact ih he hk
    · simp only at hk
      rw [resolveSuperclass, hk] at hs
      cases hs
  | arrayOf _ hc ih =>
    rcases eq_add_of_arrayOf hc with rfl | ⟨name, rfl⟩
    · exact ih he hk
    · rcases get?_add he with ⟨-, he⟩ | ⟨-, rfl⟩
      · exact ih he hk
      · cases hk
        exact ⟨name, rfl⟩

end Registry

end DeepCopy

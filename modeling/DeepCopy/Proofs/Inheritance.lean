-- What instances inherit. The layout of a class lists the instance fields of its
-- line, the root class first, each at a multiple of its width and away from all
-- others, and it goes on from the layouts of its ancestors. So a field that was
-- got from an ancestor is the same storage on an instance of the class.
import DeepCopy.Proofs.Ancestry
import DeepCopy.Proofs.Filling

namespace DeepCopy

/-! ## Declarations -/

/-- A field as it is declared, with the class that declares it. -/
structure Declaration where
  cls : ClassId
  className : String
  field : FieldDecl
deriving DecidableEq, Repr

/-- The declaration of a field. -/
def Field.declaration (f : Field) : Declaration :=
  ⟨f.declaring, f.declaringName, ⟨f.name, f.type, f.marks⟩⟩

/-- What a class declares for its instances. -/
def ClassDecl.declarations (cls : ClassId) (d : ClassDecl) : List Declaration :=
  (d.fields.filter fun f => !f.marks.isStatic).map fun f => ⟨cls, d.name, f⟩

/-- What a registered class declares for its instances. -/
def Registry.declarations (r : Registry) (cls : ClassId) : List Declaration :=
  match r.get? cls with
  | some e => e.decl.declarations cls
  | none => []

/-- The slot that a place is. -/
def Place.slot? : Place → Option Nat
  | bytes _ _ => none
  | slot index => some index

namespace Layout

theorem map_declaration_addField (cls : ClassId) (name : String) (l : Layout) (d : FieldDecl) :
    (l.addField cls name d).fields.map Field.declaration =
      l.fields.map Field.declaration ++ [⟨cls, name, d⟩] := by
  unfold addField
  cases ht : d.type <;> simp [Field.declaration, ← ht]

theorem map_declaration_addFields (cls : ClassId) (d : ClassDecl) (l : Layout) :
    (l.addFields cls d).fields.map Field.declaration =
      l.fields.map Field.declaration ++ d.declarations cls := by
  unfold addFields ClassDecl.declarations
  induction d.fields.filter (fun f => !f.marks.isStatic) generalizing l with
  | nil => simp
  | cons f fs ih =>
    rw [List.foldl_cons, ih, map_declaration_addField, List.map_cons, List.append_assoc]
    rfl

/-! ## Where fields begin -/

/-- Each primitive is at a multiple of its width. -/
def Aligned (l : Layout) : Prop :=
  ∀ f ∈ l.fields, ∀ offset kind, f.place = .bytes offset kind → kind.width ∣ offset

/-- The slots are given out one after the other. -/
def Counted (l : Layout) : Prop :=
  l.fields.filterMap (·.place.slot?) = List.range l.slotCount

theorem inherited_aligned : Inherited Aligned where
  bare := fun _ f hf => by cases hf
  retitled := fun _ _ h => h
  addField := by
    intro l cls name d h
    have behind : ∀ f : Field, (∀ offset kind, f.place = .bytes offset kind → kind.width ∣ offset) →
        ∀ g ∈ l.fields ++ [f], ∀ offset kind, g.place = .bytes offset kind →
          kind.width ∣ offset := by
      intro f hf g hg
      rcases List.mem_append.mp hg with hg | hg
      · exact h g hg
      · exact List.mem_singleton.mp hg ▸ hf
    unfold addField
    split
    · refine behind _ ?_
      rintro offset kind ⟨⟩
      exact dvd_alignUp _ _
    · exact behind _ fun _ _ hp => by cases hp
    · exact behind _ fun _ _ hp => by cases hp

theorem inherited_counted : Inherited Counted where
  bare := fun _ => rfl
  retitled := fun _ _ h => h
  addField := by
    intro l cls name d h
    unfold Counted at h
    unfold addField Counted
    split
    · rw [List.filterMap_append, h]
      exact List.append_nil _
    · rw [List.filterMap_append, h]
      exact List.range_succ.symm
    · rw [List.filterMap_append, h]
      exact List.range_succ.symm

/-! ## Going on from another layout -/

/-- A layout goes on from another one: its fields come first and stay where they are. -/
structure Continues (l p : Layout) : Prop where
  fields : p.fields <+: l.fields
  blockSize : p.blockSize ≤ l.blockSize
  slotCount : p.slotCount ≤ l.slotCount

theorem Continues.refl (l : Layout) : l.Continues l :=
  ⟨List.prefix_refl _, Nat.le_refl _, Nat.le_refl _⟩

theorem Continues.trans {l m p : Layout} (h : l.Continues m) (h' : m.Continues p) :
    l.Continues p :=
  ⟨h'.fields.trans h.fields, Nat.le_trans h'.blockSize h.blockSize,
    Nat.le_trans h'.slotCount h.slotCount⟩

theorem continues_addField (cls : ClassId) (name : String) (l : Layout) (d : FieldDecl) :
    (l.addField cls name d).Continues l := by
  unfold addField
  split
  · rename_i kind _
    refine ⟨List.prefix_append _ _, ?_, Nat.le_refl _⟩
    exact Nat.le_trans (le_alignUp l.blockSize kind.width_pos) (Nat.le_add_right _ _)
  · exact ⟨List.prefix_append _ _, Nat.le_refl _, Nat.le_succ _⟩
  · exact ⟨List.prefix_append _ _, Nat.le_refl _, Nat.le_succ _⟩

theorem continues_addFields (cls : ClassId) (d : ClassDecl) (l : Layout) :
    (l.addFields cls d).Continues l := by
  unfold addFields
  induction d.fields.filter (fun f => !f.marks.isStatic) generalizing l with
  | nil => exact Continues.refl l
  | cons f fs ih => exact (ih _).trans (continues_addField cls d.name l f)

end Layout

/-! ## Along the line of a class -/

namespace Registry

variable {r : Registry} {id : ClassId} {e : Entry} {chain : List ClassId}

theorem declarations_of_get? (he : r.get? id = some e) :
    r.declarations id = e.decl.declarations id := by
  simp only [declarations, he]

/-- The fields of a layout are those that the line of the class declares, the root first. -/
theorem Line.map_declaration (h : r.Line id chain) (hl : r.LaidOut) (hc : r.Consistent)
    (he : r.get? id = some e) (hk : e.decl.kind.isBuiltIn = false) :
    e.layout.fields.map Field.declaration = chain.reverse.flatMap r.declarations := by
  induction h generalizing e with
  | root he' hs =>
    cases he.symm.trans he'
    rw [hl.root he hk hs, Layout.map_declaration_addFields, ← declarations_of_get? he]
    simp
  | child he' hs hp ih =>
    cases he.symm.trans he'
    obtain ⟨p, hp', hpk⟩ := hc.exists_superclass he hs
    rw [hl.child he hk hs hp', Layout.map_declaration_addFields, ih hp' hpk,
      ← declarations_of_get? he]
    simp

/-- A layout goes on from that of each class of the line. -/
theorem Line.continues (h : r.Line id chain) (hl : r.LaidOut) (hc : r.Consistent)
    (he : r.get? id = some e) (hk : e.decl.kind.isBuiltIn = false) {a : ClassId} (ha : a ∈ chain) :
    ∃ p, r.get? a = some p ∧ e.layout.Continues p.layout := by
  induction h generalizing e with
  | root he' hs =>
    rw [List.mem_singleton.mp ha]
    exact ⟨e, he, Layout.Continues.refl _⟩
  | @child id parent e' above he' hs hp ih =>
    cases he.symm.trans he'
    rcases List.mem_cons.mp ha with rfl | ha
    · exact ⟨_, he, Layout.Continues.refl _⟩
    · obtain ⟨p, hp', hpk⟩ := hc.exists_superclass he hs
      obtain ⟨q, hq, hcont⟩ := ih hp' hpk ha
      have hstep : e'.layout.Continues p.layout := by
        have h := Layout.continues_addFields id e'.decl { p.layout with cls := id }
        rw [hl.child he hk hs hp']
        exact ⟨h.fields, h.blockSize, h.slotCount⟩
      exact ⟨q, hq, hstep.trans hcont⟩

theorem Line.getElem?_one (h : r.Line id chain) (he : r.get? id = some e) :
    chain[0]? = some id ∧ chain[1]? = e.decl.superclass := by
  cases h with
  | root he' hs =>
    cases he.symm.trans he'
    exact ⟨rfl, hs.symm⟩
  | child he' hs hp =>
    cases he.symm.trans he'
    refine ⟨rfl, ?_⟩
    cases hp <;> exact hs.symm

end Registry

/-! ## Reading and writing a field -/

/-- A field takes a value, and what it holds then: a primitive in the form of the field's kind, all
else as it is. -/
def Field.Stores (f : Field) (h : Heap) (v held : Value) : Prop :=
  match f.place with
  | .bytes _ kind => ∃ p, Primitive.unbox? kind v = some p ∧ held = p.box
  | .slot _ => (f.type.category = .array → Field.takesArray h v = true) ∧ held = v

/-- A field is storage of an object that is laid out by a layout: it can be read, a value it takes
can be written and is read back, and no other field of the layout changes by that. -/
structure Field.Works (f : Field) (l : Layout) (h : Heap) (o : ObjectId) : Prop where
  reads : ∃ v, f.get h o = .ok v
  writes : ∀ v held, f.Stores h v held → ∃ w, f.set h o v = .ok w ∧
    f.get (h.write w) o = .ok held ∧ ∀ g ∈ l.fields, g ≠ f → g.get (h.write w) o = g.get h o

section Access

variable {f : Field} {l : Layout} {h : Heap} {o : ObjectId} {b : Body} {v held : Value}

theorem Field.get_of_readFrom (hr : f.readFrom (h.body o) = .ok v) : f.get h o = .ok v := by
  rw [Field.get, hr]
  rfl

/-- After a write to the place of a field all others read as before. -/
theorem Layout.Sound.get_write (hl : l.Sound) (hf : f ∈ l.fields) (ho : o < h.size)
    (ha : Body.Alters f.place (h.body o) b) {g : Field} (hg : g ∈ l.fields) (hne : g ≠ f) :
    g.get (h.write ⟨o, b⟩) o = g.get h o := by
  have happart := (hl.eq_or_apart hf hg).resolve_left (Ne.symm hne)
  rw [Field.get, Field.get, Heap.write, Heap.body_setBody ho,
    Field.readFrom_of_same (ha.same g.place happart)]

/-- A value that a field takes can be written to its place, and is what the field reads as then. -/
theorem Field.exists_set (hs : (h.body o).Sized l.blockSize l.slotCount)
    (hw : f.place.Within l.blockSize l.slotCount) (hv : f.Stores h v held) :
    ∃ b, f.set h o v = .ok ⟨o, b⟩ ∧ Body.Alters f.place (h.body o) b ∧
      f.readFrom b = .ok held := by
  cases hp : f.place with
  | bytes offset kind =>
    rw [hp] at hw
    simp only [Stores, hp] at hv
    obtain ⟨p, hu, rfl⟩ := hv
    have hkind := Primitive.kind_of_unbox? hu
    have hlen : p.encode.length = kind.width := by rw [Primitive.length_encode, hkind]
    obtain ⟨b, hb⟩ := hs.exists_writeBytes (by rw [hlen]; exact hw)
    refine ⟨b, ?_, Body.alters_writeBytes hlen hb, Field.readFrom_writeBytes hp hkind hb⟩
    simp only [set, writeTo, hp, hu, hb]
    rfl
  | slot index =>
    rw [hp] at hw
    simp only [Stores, hp] at hv
    obtain ⟨htakes, rfl⟩ := hv
    obtain ⟨b, hb⟩ := hs.exists_writeSlot hw held
    refine ⟨b, Field.set_of_slot hp htakes hb, Body.alters_writeSlot hb, ?_⟩
    exact (Field.readFrom_of_slot hp b).trans (Body.readSlot_writeSlot hb)

theorem Layout.Sound.works (hl : l.Sound) (hf : f ∈ l.fields) (ho : o < h.size)
    (hs : (h.body o).Sized l.blockSize l.slotCount) : f.Works l h o := by
  refine ⟨?_, ?_⟩
  · obtain ⟨v, hv⟩ := Field.exists_readFrom (hl.within f hf) hs
    exact ⟨v, Field.get_of_readFrom hv⟩
  · intro v held hv
    obtain ⟨b, hset, halters, hread⟩ := Field.exists_set hs (hl.within f hf) hv
    refine ⟨⟨o, b⟩, hset, ?_, fun g hg hne => hl.get_write hf ho halters hg hne⟩
    refine Field.get_of_readFrom ?_
    rw [Heap.write, Heap.body_setBody ho]
    exact hread

end Access

/-! ## The layouts of a registry -/

/-- The layout of a class whose line is `chain`. -/
structure Layout.Arranges (l : Layout) (r : Registry) (chain : List ClassId) : Prop where
  /-- The fields are the instance fields of the line as they are declared, the root class first. -/
  fields : l.fields.map Field.declaration = chain.reverse.flatMap r.declarations
  /-- Primitives are kept in the block, all else in slots. -/
  suits : ∀ f ∈ l.fields, f.type.Suits f.place
  /-- A primitive is at a multiple of its width. -/
  aligned : l.Aligned
  /-- All fields lie inside the instance. -/
  within : ∀ f ∈ l.fields, f.place.Within l.blockSize l.slotCount
  /-- No two fields have a byte or a slot in common. -/
  apart : l.fields.Pairwise fun f g => f.place.Apart g.place
  /-- Each slot is used once, in the order of the fields. -/
  slots : l.Counted

namespace Registry

variable {r : Registry} {id : ClassId} {e : Entry}

/-- Every class of a registry, whatever was defined before and after it, has a layout that lists the
instance fields of its line in order and keeps them apart. It goes on from the layouts of all
classes of the line, and what was got from one of them works on all that is laid out by it. -/
theorem layouts_are_sound_and_go_on_from_those_of_ancestors (hr : r.Built)
    (he : r.get? id = some e) (hk : e.decl.kind.isBuiltIn = false) :
    ∃ l chain, r.layout id = .ok l ∧ r.build id = .ok l ∧ r.ancestors id = .ok chain ∧
      chain[0]? = some id ∧ chain[1]? = e.decl.superclass ∧ l.Arranges r chain ∧
      ∀ a ∈ chain, ∃ p, r.layout a = .ok p ∧ l.Continues p ∧
        ∀ f ∈ p.fields, f ∈ l.fields ∧ ∀ h o, o < h.size →
          (h.body o).Sized l.blockSize l.slotCount → f.Works l h o := by
  have hc := hr.consistent
  have hsound := hr.sound.layouts id e he
  obtain ⟨chain, hline⟩ := hc.exists_line he
  obtain ⟨hself, hsuper⟩ := hline.getElem?_one he
  refine ⟨e.layout, chain, layout_of_get? he, hr.build_of_get? he, hline.ancestors_eq hc, hself,
    hsuper, ?_, ?_⟩
  · exact
      { fields := hline.map_declaration hr.laidOut hc he hk
        suits := hsound.suits
        aligned := hr.each Layout.inherited_aligned id e he
        within := hsound.within
        apart := hsound.apart
        slots := hr.each Layout.inherited_counted id e he }
  · intro a ha
    obtain ⟨p, hp, hcont⟩ := hline.continues hr.laidOut hc he hk ha
    refine ⟨p.layout, layout_of_get? hp, hcont, fun f hf => ?_⟩
    have hf := hcont.fields.subset hf
    exact ⟨hf, fun h o ho hs => hsound.works hf ho hs⟩

/-- A class of three primitives of different widths, one of them static, and a reference. -/
def gauge : ClassDecl :=
  { name := "Gauge", kind := .abstract, superclass := some rootClass
    fields :=
      [ { name := "on", type := .primitive .bool },
        { name := "count", type := .primitive .i64, marks := { isStatic := true } },
        { name := "label", type := .object rootClass },
        { name := "level", type := .primitive .i16 } ] }

/-- A subclass that hides an inherited field and begins behind a gap. -/
def dial : ClassDecl :=
  { name := "Dial", superclass := some 12
    fields :=
      [ { name := "level", type := .primitive .i64 }, { name := "next", type := .object 12 } ] }

theorem built_dial : ((initial.add gauge).add dial).Built := by
  have hgauge : initial.define gauge = .ok (12, initial.add gauge) :=
    define_eq (by decide) rfl rfl
  have hdial : (initial.add gauge).define dial = .ok (13, (initial.add gauge).add dial) :=
    define_eq (by decide) rfl rfl
  exact .define (.define .initial hgauge) hdial

/-- The layout of the subclass begins with the one byte and the two bytes of its superclass, goes on
at the next multiple of eight, and its slots come after the one that is inherited. -/
theorem dial_goes_on_from_gauge : ((initial.add gauge).add dial).Built ∧
    ∃ l chain, ((initial.add gauge).add dial).layout 13 = .ok l ∧
      ((initial.add gauge).add dial).ancestors 13 = .ok chain ∧ chain = [13, 12, 0] ∧
      l.fields.map (fun f => (f.declaring, f.name, f.place)) =
        [(12, "on", .bytes 0 .bool), (12, "label", .slot 0), (12, "level", .bytes 2 .i16),
          (13, "level", .bytes 8 .i64), (13, "next", .slot 1)] ∧
      l.Arranges ((initial.add gauge).add dial) chain := by
  obtain ⟨l, chain, hl, -, hchain, -, -, harranges, -⟩ :=
    layouts_are_sound_and_go_on_from_those_of_ancestors built_dial (get?_add_new _ dial) rfl
  have hline : chain = [13, 12, 0] := Except.ok.inj (hchain.symm.trans rfl)
  have hlayout : ((initial.add gauge).add dial).layoutOf 13 dial = l :=
    Except.ok.inj ((layout_of_get? (get?_add_new _ dial)).symm.trans hl)
  refine ⟨built_dial, l, chain, hl, hchain, hline, ?_, harranges⟩
  rw [← hlayout]
  decide

end Registry

end DeepCopy

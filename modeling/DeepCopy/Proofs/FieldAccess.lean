-- Access to fields by name. A name stands for the field that the most derived class
-- of the line declares under it. What fits the field can be set and is read back, a
-- field that is reset reads as its default, and neither touches anything else. What
-- cannot be done leaves the heap as it is.
import DeepCopy.Proofs.Ending
import DeepCopy.Proofs.Inheritance

namespace DeepCopy

/-! ## What a name stands for -/

/-- What a line declares under a name: the first class of the line that declares an instance field
of the name settles it. -/
def Registry.declared? (r : Registry) (name : String) (chain : List ClassId) :
    Option Declaration :=
  chain.findSome? fun cls => (r.declarations cls).find? fun d => d.field.name == name

/-- Where no two elements have one name, the last of a name is the first of that name. -/
theorem getLast?_filter_of_nodup {α : Type} {nameOf : α → String} {items : List α}
    (h : (items.map nameOf).Nodup) (name : String) :
    (items.filter fun a => nameOf a == name).getLast? = items.find? fun a => nameOf a == name := by
  induction items with
  | nil => rfl
  | cons a items ih =>
    rw [List.map_cons, List.nodup_cons] at h
    by_cases hname : nameOf a = name
    · have hnone : items.filter (fun a => nameOf a == name) = [] := by
        refine List.filter_eq_nil_iff.mpr fun c hc heq => h.1 ?_
        rw [hname, ← eq_of_beq heq]
        exact List.mem_map_of_mem hc
      simp [hname, hnone]
    · simp [hname, ih h.2]

namespace Registry

variable {r : Registry} {id : ClassId} {e : Entry} {chain : List ClassId}

theorem Consistent.nodup_declarations (h : r.Consistent) (cls : ClassId) :
    ((r.declarations cls).map (·.field.name)).Nodup := by
  unfold declarations
  cases he : r.get? cls with
  | none => exact List.nodup_nil
  | some e =>
    have hsub : ((e.decl.declarations cls).map (·.field.name)).Sublist
        (e.decl.fields.map (·.name)) := by
      simp only [ClassDecl.declarations, List.map_map]
      exact List.filter_sublist.map _
    exact (h.suits cls e he).fields.sublist hsub

theorem declared?_cons (r : Registry) (name : String) (cls : ClassId) (chain : List ClassId) :
    r.declared? name (cls :: chain) =
      ((r.declarations cls).find? fun d => d.field.name == name).or (r.declared? name chain) := by
  simp only [declared?, List.findSome?_cons]
  cases (r.declarations cls).find? fun d => d.field.name == name <;> rfl

/-- Of all that a line declares, the root first, the last of a name is that of the most derived
class. -/
theorem Consistent.getLast?_declarations (h : r.Consistent) (name : String)
    (chain : List ClassId) :
    ((chain.reverse.flatMap r.declarations).filter fun d => d.field.name == name).getLast? =
      r.declared? name chain := by
  induction chain with
  | nil => rfl
  | cons cls chain ih =>
    have hone := getLast?_filter_of_nodup (h.nodup_declarations cls) name
    rw [List.reverse_cons, List.flatMap_append, List.filter_append, List.getLast?_append, ih,
      List.flatMap_singleton, hone, declared?_cons]

/-- The field of a name is the one that the most derived class of the line declares. -/
theorem Line.declaration_field? (h : r.Line id chain) (hl : r.LaidOut) (hc : r.Consistent)
    (he : r.get? id = some e) (hk : e.decl.kind.isBuiltIn = false) (name : String) :
    (e.layout.field? name).map Field.declaration = r.declared? name chain := by
  rw [← hc.getLast?_declarations, ← h.map_declaration hl hc he hk, List.filter_map,
    List.getLast?_map]
  rfl

end Registry

/-! ## What a field takes -/

namespace FieldType

/-- What a field of a type holds once it was given a value, if it takes the value: a primitive in
the form of its kind, an array or nothing, or any value at all. -/
def kept? (h : Heap) (v : Value) : FieldType → Option Value
  | primitive kind => (Primitive.unbox? kind v).map Primitive.box
  | array _ => if Field.takesArray h v then some v else none
  | object _ => some v

/-- What a type asks for where it does not take every value. -/
def expected : FieldType → Expected
  | primitive kind => .primitive kind
  | array _ => .array
  | object _ => .reference

/-- What a field of a type holds before it was given a value. -/
def default : FieldType → Value
  | primitive kind => (Primitive.zero kind).box
  | array _ | object _ => .null

end FieldType

section Fits

variable {f : Field} {h : Heap} {o : ObjectId} {v held : Value}

theorem Field.stores_of_kept (hs : f.type.Suits f.place) (hk : f.type.kept? h v = some held) :
    f.Stores h v held := by
  cases ht : f.type <;> cases hp : f.place <;>
    simp only [ht, hp, FieldType.Suits, FieldType.kept?, Option.map_eq_some_iff,
      Option.ite_none_right_eq_some, Option.some.injEq] at hs hk
  case primitive.bytes kind offset kind' =>
    obtain ⟨p, hu, rfl⟩ := hk
    simp only [Stores, hp, hs]
    exact ⟨p, hu, rfl⟩
  case object.slot =>
    simp only [Stores, hp, ht]
    exact ⟨fun hcat => (by cases hcat), hk.symm⟩
  case array.slot =>
    simp only [Stores, hp]
    exact ⟨fun _ => hk.1, hk.2.symm⟩

/-- What a field does not take is refused. -/
theorem Field.set_of_unkept (hs : f.type.Suits f.place) (hk : f.type.kept? h v = none) :
    f.set h o v = .error (f.refusal f.type.expected v) := by
  cases ht : f.type <;> cases hp : f.place <;>
    simp only [ht, hp, FieldType.Suits, FieldType.kept?, Option.map_eq_none_iff,
      ite_eq_right_iff, reduceCtorEq, imp_false, Bool.not_eq_true] at hs hk
  case primitive.bytes kind offset kind' =>
    simp only [set, writeTo, hp, hs, hk]
    rfl
  case array.slot =>
    simp only [set, writeTo, hp, ht, hk, FieldType.category, and_self, if_true]
    rfl

theorem Field.default_of_suits (hs : f.type.Suits f.place) : f.default = f.type.default := by
  cases ht : f.type <;> cases hp : f.place <;> simp only [ht, hp, FieldType.Suits] at hs
  all_goals simp only [Field.default, hp, FieldType.default, hs]

end Fits

/-! ## What a write changes -/

/-- A write gives a field of an instance a value and changes nothing else. -/
structure Field.Gives (f : Field) (l : Layout) (h : Heap) (o : ObjectId) (held : Value)
    (w : Write) : Prop where
  object : w.object = o
  sized : w.body.Sized l.blockSize l.slotCount
  reads : f.get (h.write w) o = .ok held
  others : ∀ g ∈ l.fields, g ≠ f → g.get (h.write w) o = g.get h o
  /-- No byte outside the field changes, whether it is of another field or of none. -/
  bytes : ∀ i, ¬ f.place.Covers i → w.body.readBytes i 1 = (h.body o).readBytes i 1
  slots : ∀ i, f.place ≠ .slot i → w.body.readSlot i = (h.body o).readSlot i
  cls : (h.write w).cls o = h.cls o
  elsewhere : ∀ q, q ≠ o → (h.write w).get q = h.get q

/-- A place and a byte that it does not cover lie apart. -/
theorem Place.apart_byte {p : Place} {i : Nat} (h : ¬ p.Covers i) : p.Apart (.bytes i .i8) := by
  cases p with
  | bytes offset kind =>
    simp only [Covers, Apart, Primitive.Kind.width] at h ⊢
    omega
  | slot index => trivial

theorem Place.apart_slot {p : Place} {i : Nat} (h : p ≠ .slot i) : p.Apart (.slot i) := by
  cases p with
  | bytes offset kind => trivial
  | slot index => exact fun heq => h (congrArg Place.slot heq)

section Gives

variable {f : Field} {l : Layout} {h : Heap} {o : ObjectId} {b : Body} {held : Value}

theorem Layout.Sound.gives (hl : l.Sound) (hf : f ∈ l.fields) (ho : o < h.size)
    (hs : (h.body o).Sized l.blockSize l.slotCount) (ha : Body.Alters f.place (h.body o) b)
    (hr : f.readFrom b = .ok held) : f.Gives l h o held ⟨o, b⟩ where
  object := rfl
  sized := ha.sized _ _ hs
  reads := by
    refine Field.get_of_readFrom ?_
    rw [Heap.write, Heap.body_setBody ho]
    exact hr
  others := fun _ hg hne => hl.get_write hf ho ha hg hne
  bytes := fun _ hi => ha.same _ (Place.apart_byte hi)
  slots := fun _ hi => ha.same _ (Place.apart_slot hi)
  cls := Heap.cls_setBody h o o b
  elsewhere := fun _ hq => Heap.get_write_of_ne hq

/-- A field inside an instance can be reset, and reads as its default then. -/
theorem Field.exists_reset (hs : (h.body o).Sized l.blockSize l.slotCount)
    (hw : f.place.Within l.blockSize l.slotCount) :
    ∃ b, f.reset h o = .ok ⟨o, b⟩ ∧ Body.Alters f.place (h.body o) b ∧
      f.readFrom b = .ok f.default := by
  cases hp : f.place with
  | bytes offset kind =>
    rw [hp] at hw
    have hkind := Primitive.kind_zero kind
    have hlen : (Primitive.zero kind).encode.length = kind.width := by
      rw [Primitive.length_encode, hkind]
    obtain ⟨b, hb⟩ := hs.exists_writeBytes (by rw [hlen]; exact hw)
    have hzeros := hb
    rw [Primitive.encode_zero] at hzeros
    refine ⟨b, reset_of_bytes hp hzeros, Body.alters_writeBytes hlen hb, ?_⟩
    simp only [readFrom_writeBytes hp hkind hb, default, hp]
  | slot index =>
    rw [hp] at hw
    obtain ⟨b, hb⟩ := hs.exists_writeSlot hw .null
    refine ⟨b, reset_of_slot hp hb, Body.alters_writeSlot hb, ?_⟩
    simp only [readFrom_of_slot hp, Body.readSlot_writeSlot hb, default, hp]

end Gives

/-! ## The laws -/

/-- Access to a field by its name: it can be read, what fits its type can be set and is read back,
what does not fit is refused, and it can be reset. -/
structure Field.Obeys (f : Field) (r : Registry) (l : Layout) (h : Heap) (o : ObjectId)
    (name : String) : Prop where
  gets : ∃ v, r.getField h o name = .ok v
  sets : ∀ v held, f.type.kept? h v = some held → ∃ w, r.setField h o name v = .ok w ∧
    r.getField (h.write w) o name = .ok held ∧ f.Gives l h o held w
  refuses : ∀ v, f.type.kept? h v = none →
    r.setField h o name v = .error (f.refusal f.type.expected v)
  resets : ∃ w, f.reset h o = .ok w ∧ r.getField (h.write w) o name = .ok f.type.default ∧
    f.Gives l h o f.type.default w

namespace Registry

variable {r : Registry} {id : ClassId} {e : Entry}

section Named

variable {h : Heap} {o : ObjectId} {f : Field} {name : String}

theorem getField_of_field (he : r.get? id = some e) (hf : e.layout.field name = .ok f)
    (hcls : h.cls o = id) : r.getField h o name = f.get h o := by
  simp only [getField, hcls, layout_of_get? he, bind, Except.bind, hf]

theorem setField_of_field (he : r.get? id = some e) (hf : e.layout.field name = .ok f)
    (hcls : h.cls o = id) (v : Value) : r.setField h o name v = f.set h o v := by
  simp only [setField, hcls, layout_of_get? he, bind, Except.bind, hf]

theorem obeys_of_field (hl : e.layout.Sound) (he : r.get? id = some e)
    (hf : e.layout.field name = .ok f) (hm : f ∈ e.layout.fields) (ho : o < h.size)
    (hcls : h.cls o = id) (hs : (h.body o).Sized e.layout.blockSize e.layout.slotCount) :
    f.Obeys r e.layout h o name := by
  have hsuits := hl.suits f hm
  have hwithin := hl.within f hm
  have back : ∀ {w held}, f.Gives e.layout h o held w →
      r.getField (h.write w) o name = .ok held := by
    intro w held hw
    rw [getField_of_field he hf (hw.cls.trans hcls)]
    exact hw.reads
  refine ⟨?_, ?_, ?_, ?_⟩
  · rw [getField_of_field he hf hcls]
    exact (hl.works hm ho hs).reads
  · intro v held hk
    obtain ⟨b, hset, halters, hread⟩ :=
      Field.exists_set hs hwithin (Field.stores_of_kept hsuits hk)
    have hgives := hl.gives hm ho hs halters hread
    exact ⟨⟨o, b⟩, (setField_of_field he hf hcls v).trans hset, back hgives, hgives⟩
  · intro v hk
    rw [setField_of_field he hf hcls]
    exact Field.set_of_unkept hsuits hk
  · obtain ⟨b, hreset, halters, hread⟩ := Field.exists_reset hs hwithin
    rw [Field.default_of_suits hsuits] at hread
    have hgives := hl.gives hm ho hs halters hread
    exact ⟨⟨o, b⟩, hreset, back hgives, hgives⟩

end Named

/-- A write that is refused leaves the memory as it is. -/
theorem eq_of_update_error {ε : Type} {change : Heap → Except ε Write} {m m' : Memory} {fault : ε}
    (h : Memory.update change m = .error fault m') : m' = m := by
  have hends : Ends (Memory.update change) m (fun _ _ => True) (fun _ m' => m' = m) := by
    rw [ends_memory_update]
    split <;> trivial
  exact (ends_of_error h).mp hends

/-- On an instance of a class, a name stands for the field that the most derived class of the line
declares under it. The field can be set to what fits its type and to nothing else, it is read back,
it can be reset, and all other fields, the bytes between them and the other objects stay as they
are. A name that no class of the line declares leads nowhere. What fails leaves the memory alone. -/
theorem names_lead_to_the_most_derived_field_and_access_obeys_its_laws (hr : r.Built)
    (he : r.get? id = some e) (hk : e.decl.kind.isBuiltIn = false) {h : Heap} {o : ObjectId}
    (ho : o < h.size) (hcls : h.cls o = id)
    (hs : (h.body o).Sized e.layout.blockSize e.layout.slotCount) (name : String) :
    ∃ chain, r.layout id = .ok e.layout ∧ r.ancestors id = .ok chain ∧
      (∀ d, r.declared? name chain = some d → ∃ f ∈ e.layout.fields,
        e.layout.field name = .ok f ∧ f.declaration = d ∧ f.Obeys r e.layout h o name) ∧
      (r.declared? name chain = none →
        e.layout.field name = .error (.noSuchField id.text name) ∧
        r.getField h o name = .error (.noSuchField id.text name) ∧
        ∀ v, r.setField h o name v = .error (.noSuchField id.text name)) ∧
      ∀ m m' : Memory, ∀ fault,
        (∀ v, Memory.update (fun h => r.setField h o name v) m = .error fault m' → m' = m) ∧
        ∀ f : Field, Memory.update (fun h => f.reset h o) m = .error fault m' → m' = m := by
  have hc := hr.consistent
  have hsound := hr.sound.layouts id e he
  obtain ⟨chain, hline⟩ := hc.exists_line he
  have hdeclared := hline.declaration_field? hr.laidOut hc he hk name
  refine ⟨chain, layout_of_get? he, hline.ancestors_eq hc, ?_, ?_,
    fun m m' fault => ⟨fun v h => eq_of_update_error h, fun f h => eq_of_update_error h⟩⟩
  · intro d hd
    rw [hd, Option.map_eq_some_iff] at hdeclared
    obtain ⟨f, hfield, hdecl⟩ := hdeclared
    have hm : f ∈ e.layout.fields := (List.mem_filter.mp (List.mem_of_getLast? hfield)).1
    have hf : e.layout.field name = .ok f := by
      simp only [Layout.field, hfield]
    exact ⟨f, hm, hf, hdecl, obeys_of_field hsound he hf hm ho hcls hs⟩
  · intro hd
    rw [hd, Option.map_eq_none_iff] at hdeclared
    have hf : e.layout.field name = .error (.noSuchField id.text name) := by
      simp only [Layout.field, hdeclared, hr.laidOut.cls_eq he]
    refine ⟨hf, ?_, fun v => ?_⟩
    · simp only [getField, hcls, layout_of_get? he, bind, Except.bind, hf]
    · simp only [setField, hcls, layout_of_get? he, bind, Except.bind, hf]

/-- A dial whose bytes between the fields are not zero. -/
def usedDial : Heap where
  objects := #[.new 13 (.record [1, 238, 52, 18, 0, 0, 0, 238, 5, 0, 0, 0, 0, 0, 0, 0]
    [.null, .ref 0])]

/-- The name of a hidden field leads to the field that hides it. When that is set, the hidden field
and the bytes between the fields stay as they were; a text does not fit it, and a static field has
no name on an instance. -/
theorem setting_a_level_spares_the_hidden_one : ((initial.add gauge).add dial).Built ∧
    ((initial.add gauge).add dial).getField usedDial 0 "level" = .ok (.int 5) ∧
    (∃ f ∈ (((initial.add gauge).add dial).layoutOf 13 dial).fields, ∃ w,
      (f.declaring, f.place) = (13, .bytes 8 .i64) ∧
      ((initial.add gauge).add dial).setField usedDial 0 "level" (.int 7) = .ok w ∧
      ((initial.add gauge).add dial).getField (usedDial.write w) 0 "level" = .ok (.int 7) ∧
      w.body.readBytes 1 1 = .ok [238] ∧
      (∀ g ∈ (((initial.add gauge).add dial).layoutOf 13 dial).fields, g.declaring = 12 →
        g.get (usedDial.write w) 0 = g.get usedDial 0) ∧
      ((initial.add gauge).add dial).setField usedDial 0 "level" (.text "up") =
        .error (.typeMismatch "Dial" "level" (.primitive .i64) (.value .text))) ∧
    ((initial.add gauge).add dial).setField usedDial 0 "count" (.int 7) =
      .error (.noSuchField "ClassId(13)" "count") := by
  have laws := fun name => names_lead_to_the_most_derived_field_and_access_obeys_its_laws built_dial
    (get?_add_new _ dial) rfl (h := usedDial) (o := 0) (by decide) rfl ⟨rfl, rfl⟩ name
  obtain ⟨chain, -, hchain, hfound, -, -⟩ := laws "level"
  obtain ⟨chain', -, hchain', -, hmissing, -⟩ := laws "count"
  have hline : chain = [13, 12, 0] := Except.ok.inj (hchain.symm.trans rfl)
  have hline' : chain' = [13, 12, 0] := Except.ok.inj (hchain'.symm.trans rfl)
  subst hline hline'
  obtain ⟨f, hf, hfield, -, hobeys⟩ := hfound ⟨13, "Dial", dial.fields[0]⟩ (by decide)
  have hlast : (((initial.add gauge).add dial).layoutOf 13 dial).field "level" =
      .ok ⟨13, "Dial", "level", .primitive .i64, .bytes 8 .i64, {}⟩ := by decide
  cases hlast.symm.trans hfield
  obtain ⟨w, hset, hback, hgives⟩ := hobeys.sets (.int 7) (.int 7) rfl
  refine ⟨built_dial, by decide, ⟨_, hf, w, rfl, hset, hback, ?_, ?_, ?_⟩, ?_⟩
  · exact (hgives.bytes 1 (by simp [Place.Covers])).trans rfl
  · intro g hg h12
    refine hgives.others g hg ?_
    rintro rfl
    cases h12
  · exact hobeys.refuses (.text "up") rfl
  · exact (hmissing (by decide)).2.2 (.int 7)

end Registry

end DeepCopy

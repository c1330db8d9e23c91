-- Well-formed heaps: every object fits its class. An instance has a block and
-- slots of the sizes its layout says, primitives as they are written, zeros in
-- between, and arrays or nothing where the class declares arrays. Writing a
-- field and adding an object keep a heap well-formed.
import DeepCopy.Allocator
import DeepCopy.Proofs.BackendSteps
import DeepCopy.Proofs.Layouts

namespace DeepCopy

/-- The object that a value refers to is there. -/
def Heap.Has (h : Heap) (v : Value) : Prop := ∀ o, v = .ref o → o < h.size

/-- What an instance of a class holds, laid out as the layout says. -/
structure Layout.Holds (l : Layout) (h : Heap) (block : List UInt8) (refs : List Value) :
    Prop where
  blockSize : block.length = l.blockSize
  slotCount : refs.length = l.slotCount
  /-- A primitive field holds the bytes of a primitive of its kind. -/
  canonical : ∀ f ∈ l.fields, ∀ offset kind, f.place = .bytes offset kind →
    ∃ p : Primitive, p.kind = kind ∧ Bytes.window? offset kind.width block = some p.encode
  /-- What belongs to no field is zero. -/
  padding : ∀ i < block.length, (∀ f ∈ l.fields, ¬ f.place.Covers i) → block[i]? = some 0
  /-- An array field holds nothing or an array. -/
  arrays : ∀ f ∈ l.fields, ∀ index, f.place = .slot index → f.type.category = .array →
    ∀ v, refs[index]? = some v → Field.takesArray h v = true

/-- The body fits the kind of the class. Classes of other kinds have no instances. -/
def Registry.Entry.Fits (e : Registry.Entry) (h : Heap) (b : Body) : Prop :=
  match e.decl.kind, b with
  | .concrete, .record block refs => e.layout.Holds h block refs
  | .array (.primitive kind), .packed kind' bytes => kind' = kind ∧ kind.width ∣ bytes.length
  | .array (.reference _), .slots _ => True
  | .container kind, .container c => c.kind = kind
  | _, _ => False

namespace Registry.Entry

variable {e : Entry} {h : Heap}

theorem fits_record {block : List UInt8} {refs : List Value} :
    e.Fits h (.record block refs) ↔ e.decl.kind = .concrete ∧ e.layout.Holds h block refs := by
  unfold Fits
  cases e.decl.kind with
  | array c => cases c <;> simp
  | _ => simp

theorem fits_packed {kind : Primitive.Kind} {bytes : List UInt8} :
    e.Fits h (.packed kind bytes) ↔
      e.decl.kind = .array (.primitive kind) ∧ kind.width ∣ bytes.length := by
  unfold Fits
  cases e.decl.kind with
  | array c =>
    cases c with
    | primitive kind' =>
      simp only [ClassDecl.Kind.array.injEq, Component.primitive.injEq, eq_comm (a := kind)]
      constructor
      · rintro ⟨rfl, hd⟩
        exact ⟨rfl, hd⟩
      · rintro ⟨rfl, hd⟩
        exact ⟨rfl, hd⟩
    | reference c => simp
  | _ => simp

theorem fits_slots {items : List Value} :
    e.Fits h (.slots items) ↔ ∃ c, e.decl.kind = .array (.reference c) := by
  unfold Fits
  cases e.decl.kind with
  | array c => cases c <;> simp
  | _ => simp

theorem fits_container {c : Container} :
    e.Fits h (.container c) ↔ e.decl.kind = .container c.kind := by
  unfold Fits
  cases e.decl.kind with
  | array c => cases c <;> simp
  | container kind => simp [eq_comm]
  | _ => simp

/-- The kind of a class says which shape its objects have. -/
theorem Fits.shape_eq {h' : Heap} {b b' : Body} (hb : e.Fits h b) (hb' : e.Fits h' b') :
    b.shape = b'.shape := by
  unfold Fits at hb hb'
  split at hb <;> split at hb' <;> simp_all [Body.shape]

end Registry.Entry

/-- An object of a registered class that fits the class, and refers only to what is there. -/
structure Object.WellFormed (r : Registry) (h : Heap) (x : Object) : Prop where
  fits : ∃ e, r.get? x.cls = some e ∧ e.Fits h x.body
  header : x.shape = x.body.shape
  closed : ∀ v ∈ x.body.values, h.Has v

/-- All objects are well-formed. -/
def Heap.WellFormed (r : Registry) (h : Heap) : Prop := ∀ o < h.size, (h.get o).WellFormed r h

/-! ## Heaps that grow -/

section Growth

variable {own : ObjectId → Prop} {h h' : Heap} {v : Value}

theorem has_null (h : Heap) : h.Has .null := fun _ hv => by cases hv

theorem has_of_object? (hv : v.object? = none) : h.Has v := by
  rintro o rfl
  cases hv

theorem Heap.Has.grow (hv : h.Has v) (hs : Spared own h h') : h'.Has v :=
  fun o ho => Nat.lt_of_lt_of_le (hv o ho) hs.size_le

/-- Whether a value is an array does not change, since headers do not. -/
theorem takesArray_grow (hv : h.Has v) (hs : Spared own h h') :
    Field.takesArray h' v = Field.takesArray h v := by
  cases v with
  | ref o =>
    simp only [Field.takesArray, Heap.isArrayRef]
    rw [hs.shape_eq o (hv o rfl)]
  | _ => rfl

theorem Layout.Holds.grow {l : Layout} {block : List UInt8} {refs : List Value}
    (hl : l.Holds h block refs) (hc : ∀ v ∈ refs, h.Has v) (hs : Spared own h h') :
    l.Holds h' block refs := by
  refine { hl with arrays := ?_ }
  intro f hf index hp ht v hv
  rw [takesArray_grow (hc v (List.mem_of_getElem? hv)) hs]
  exact hl.arrays f hf index hp ht v hv

theorem Registry.Entry.Fits.grow {e : Registry.Entry} {b : Body} (he : e.Fits h b)
    (hc : ∀ v ∈ b.values, h.Has v) (hs : Spared own h h') : e.Fits h' b := by
  unfold Registry.Entry.Fits at *
  split at he
  · exact Layout.Holds.grow he hc hs
  · exact he
  · exact he
  · exact he
  · exact he.elim

theorem Object.WellFormed.grow {r : Registry} {x : Object} (hx : x.WellFormed r h)
    (hs : Spared own h h') : x.WellFormed r h' := by
  obtain ⟨e, he, hf⟩ := hx.fits
  exact ⟨⟨e, he, hf.grow hx.closed hs⟩, hx.header, fun v hv => (hx.closed v hv).grow hs⟩

theorem Object.WellFormed.extend {r r' : Registry} {x : Object} (hx : x.WellFormed r h)
    (hr : r.Extends r') : x.WellFormed r' h := by
  obtain ⟨e, he, hf⟩ := hx.fits
  exact ⟨⟨e, hr _ _ he, hf⟩, hx.header, hx.closed⟩

end Growth

namespace Heap.WellFormed

variable {r : Registry} {h : Heap} {e : Registry.Entry}

theorem extend {r' : Registry} (hw : h.WellFormed r) (hr : r.Extends r') : h.WellFormed r' :=
  fun o ho => (hw o ho).extend hr

/-- The class of an object is registered. -/
theorem exists_entry (hw : h.WellFormed r) {o : ObjectId} (ho : o < h.size) :
    ∃ e, r.get? (h.cls o) = some e ∧ e.Fits h (h.body o) := (hw o ho).fits

theorem fits (hw : h.WellFormed r) {o : ObjectId} (ho : o < h.size)
    (he : r.get? (h.cls o) = some e) : e.Fits h (h.body o) := by
  obtain ⟨e', he', hf⟩ := (hw o ho).fits
  have : some e = some e' := he ▸ he'
  cases this
  exact hf

theorem shape_eq_of_cls_eq (hw : h.WellFormed r) {o o' : ObjectId} (ho : o < h.size)
    (ho' : o' < h.size) (hc : h.cls o = h.cls o') : h.shape o = h.shape o' := by
  obtain ⟨e, he, hf⟩ := hw.exists_entry ho
  have hf' := hw.fits ho' (hc ▸ he)
  calc h.shape o = (h.body o).shape := (hw o ho).header
    _ = (h.body o').shape := hf.shape_eq hf'
    _ = h.shape o' := (hw o' ho').header.symm

/-- Only concrete classes have instances. -/
theorem concrete_of_shape (hw : h.WellFormed r) {o : ObjectId} (ho : o < h.size)
    (he : r.get? (h.cls o) = some e) (hs : h.shape o = .record) : e.decl.kind = .concrete := by
  have hf := hw.fits ho he
  obtain ⟨block, refs, hx⟩ : ∃ block refs, h.body o = .record block refs :=
    Body.exists_record ((hw o ho).header.symm.trans hs)
  rw [hx] at hf
  exact (Registry.Entry.fits_record.mp hf).1

/-- Objects made as containers are of classes for containers. -/
theorem container_of_shape (hw : h.WellFormed r) {o : ObjectId} (ho : o < h.size)
    (he : r.get? (h.cls o) = some e) (hs : h.shape o = .container) :
    ∃ kind, e.decl.kind = .container kind := by
  have hf := hw.fits ho he
  obtain ⟨c, hx⟩ : ∃ c, h.body o = .container c :=
    Body.exists_container ((hw o ho).header.symm.trans hs)
  rw [hx] at hf
  exact ⟨c.kind, Registry.Entry.fits_container.mp hf⟩

/-- A new object may be added if it fits its class. -/
theorem add (hw : h.WellFormed r) {cls : ClassId} {b : Body} (he : r.get? cls = some e)
    (hf : e.Fits h b) (hc : ∀ v ∈ b.values, h.Has v) : (h.add (Object.new cls b)).WellFormed r := by
  have hs : Spared (fun _ => True) h (h.add (Object.new cls b)) := Spared.of_add _
  intro o ho
  rw [size_add] at ho
  by_cases hlt : o < h.size
  · rw [get_add_of_lt _ hlt]
    exact (hw o hlt).grow hs
  · have : o = h.size := Nat.le_antisymm (Nat.le_of_lt_succ ho) (Nat.not_lt.mp hlt)
    subst this
    rw [get_add_new]
    exact ⟨⟨e, he, hf.grow hc hs⟩, rfl, fun v hv => (hc v hv).grow hs⟩

/-- An object may get another body if that fits its class too. -/
theorem setBody (hw : h.WellFormed r) {o : ObjectId} {b : Body}
    (hf : ∀ e, r.get? (h.cls o) = some e → e.Fits h (h.body o) → e.Fits h b)
    (hshape : b.shape = (h.body o).shape) (hc : ∀ v ∈ b.values, h.Has v) :
    (h.setBody o b).WellFormed r := by
  have hs : Spared (fun _ => True) h (h.setBody o b) := Spared.of_touched (Or.inr ⟨b, rfl⟩) trivial
  intro o' ho'
  rw [size_setBody] at ho'
  by_cases heq : o' = o
  · subst heq
    rw [get_setBody_self b ho']
    obtain ⟨e, he, hfe⟩ := hw.exists_entry ho'
    refine ⟨⟨e, he, (hf e he hfe).grow hc hs⟩, ?_, fun v hv => (hc v hv).grow hs⟩
    exact (hw o' ho').header.trans hshape.symm
  · rw [get_setBody_of_ne b heq]
    exact (hw o' ho').grow hs

end Heap.WellFormed

/-! ## Bodies -/

theorem Primitive.encode_zero (kind : Kind) : (zero kind).encode = Bytes.zeros kind.width := by
  cases kind <;> decide

theorem Bytes.window?_zeros {offset width size : Nat} (h : offset + width ≤ size) :
    window? offset width (zeros size) = some (zeros width) := by
  have hmin : min width (size - offset) = width := by omega
  simp [window?, zeros, h, hmin]

namespace Layout.Holds

variable {l : Layout} {h : Heap} {block : List UInt8} {refs : List Value}

/-- An instance before any field is written. -/
theorem bare (hl : l.Sound) (h : Heap) :
    l.Holds h (Bytes.zeros l.blockSize) (List.replicate l.slotCount .null) := by
  refine ⟨by simp [Bytes.zeros], by simp, ?_, ?_, ?_⟩
  · intro f hf offset kind hp
    refine ⟨.zero kind, Primitive.kind_zero kind, ?_⟩
    rw [Primitive.encode_zero]
    exact Bytes.window?_zeros (hl.bytes_within hf hp)
  · intro i hi _
    simp only [Bytes.zeros, List.length_replicate] at hi
    simp [Bytes.zeros, hi]
  · intro f _ index _ _ v hv
    rw [List.eq_of_mem_replicate (List.mem_of_getElem? hv)]
    rfl

/-- A primitive field may get another primitive of its kind. -/
theorem overwrite (hh : l.Holds h block refs) (hl : l.Sound) {f : Field} (hf : f ∈ l.fields)
    {offset : Nat} {kind : Primitive.Kind} (hp : f.place = .bytes offset kind) {p : Primitive}
    (hk : p.kind = kind) : l.Holds h (Bytes.overwrite offset p.encode block) refs := by
  have hlen : p.encode.length = kind.width := by rw [Primitive.length_encode, hk]
  have hfit : offset + p.encode.length ≤ block.length := by
    rw [hlen, hh.blockSize]
    exact hl.bytes_within hf hp
  refine ⟨?_, hh.slotCount, ?_, ?_, hh.arrays⟩
  · rw [Bytes.length_overwrite hfit, hh.blockSize]
  · intro g hg offset' kind' hp'
    rcases hl.eq_or_apart hf hg with rfl | ha
    · rw [hp] at hp'
      cases hp'
      exact ⟨p, hk, hlen ▸ Bytes.window?_overwrite_same hfit⟩
    · rw [hp, hp'] at ha
      obtain ⟨q, hq, hw⟩ := hh.canonical g hg offset' kind' hp'
      refine ⟨q, hq, ?_⟩
      rw [Bytes.window?_overwrite_outside hfit (hlen.symm ▸ ha.symm), hw]
  · intro i hi hcov
    have hout : i < offset ∨ offset + p.encode.length ≤ i := by
      have := hcov f hf
      rw [hp] at this
      simp only [Place.Covers] at this
      omega
    rw [Bytes.length_overwrite hfit] at hi
    rw [Bytes.getElem?_overwrite_outside hfit hout]
    exact hh.padding i hi hcov

/-- A slot may get another value, an array or nothing if the class declares an array there. -/
theorem set (hh : l.Holds h block refs) (hl : l.Sound) {f : Field} (hf : f ∈ l.fields)
    {index : Nat} (hp : f.place = .slot index) {v : Value}
    (hv : f.type.category = .array → Field.takesArray h v = true) :
    l.Holds h block (refs.set index v) := by
  refine ⟨hh.blockSize, by simpa using hh.slotCount, hh.canonical, hh.padding, ?_⟩
  intro g hg index' hp' ht w hw
  rcases hl.eq_or_apart hf hg with rfl | ha
  · rw [hp] at hp'
    cases hp'
    have hi := (List.getElem?_eq_some_iff.mp hw).1
    rw [List.length_set] at hi
    rw [List.getElem?_set_self hi] at hw
    cases hw
    exact hv ht
  · rw [hp, hp'] at ha
    rw [List.getElem?_set_ne ha] at hw
    exact hh.arrays g hg index' hp' ht w hw

/-- The block of one instance goes with the slots of another. -/
theorem withSlots {block' : List UInt8} {refs' : List Value} (hh : l.Holds h block refs)
    (hh' : l.Holds h block' refs') : l.Holds h block refs' :=
  { hh with slotCount := hh'.slotCount, arrays := hh'.arrays }

end Layout.Holds

end DeepCopy

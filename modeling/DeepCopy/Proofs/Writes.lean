-- What is written keeps heaps well-formed: fields by checked access or by a
-- backend, elements, contents, and the blocks of instances. Checked access looks
-- at what it is given; a backend is given only what fits.
import DeepCopy.Backend
import DeepCopy.Proofs.Rules
import DeepCopy.Proofs.WellFormed

namespace DeepCopy

/-! ## What is in a body after a write -/

namespace Body

theorem values_writeBytes {offset : Nat} {bytes : List UInt8} {b b' : Body}
    (h : writeBytes offset bytes b = .ok b') : b'.values = b.values := by
  cases b <;> simp only [writeBytes] at h
  case record block refs =>
    split at h
    · cases h
      rfl
    · cases h
  all_goals cases h

theorem values_writeSlot {index : Nat} {v : Value} {b b' : Body}
    (h : writeSlot index v b = .ok b') : ∀ w ∈ b'.values, w = v ∨ w ∈ b.values := by
  cases b <;> simp only [writeSlot] at h
  case record block refs =>
    split at h
    · cases h
      intro w hw
      exact (List.mem_or_eq_of_mem_set hw).symm
    · cases h
  all_goals cases h

theorem mem_values_of_readSlot {index : Nat} {v : Value} {b : Body}
    (h : readSlot index b = .ok v) : v ∈ b.values := by
  cases b <;> simp only [readSlot] at h
  case record block refs =>
    split at h
    · rename_i w hw
      cases h
      exact List.mem_of_getElem? hw
    · cases h
  all_goals cases h

/-- What a place of the block reads as is a boxed primitive. -/
theorem box_of_readBytes {offset : Nat} {kind : Primitive.Kind} {v : Value} {b : Body}
    (h : (do
      let bytes ← b.readBytes offset kind.width
      .ok (Primitive.decode kind bytes).box : Except Miss Value) = .ok v) :
    ∃ p : Primitive, v = p.box := by
  cases hb : b.readBytes offset kind.width with
  | error miss =>
    rw [hb] at h
    cases h
  | ok bytes =>
    rw [hb] at h
    cases h
    exact ⟨_, rfl⟩

end Body

theorem Primitive.object?_box (p : Primitive) : p.box.object? = none := by
  cases p <;> rfl

namespace Registry.Entry

variable {e : Entry} {h : Heap} {b b' : Body} {f : Field}

/-- A primitive field keeps its instance in order, whatever primitive of its kind it gets. -/
theorem Fits.writeBytes (hf : e.Fits h b) (hl : e.layout.Sound) (hm : f ∈ e.layout.fields)
    {offset : Nat} {kind : Primitive.Kind} (hp : f.place = .bytes offset kind) {p : Primitive}
    (hk : p.kind = kind) (hw : b.writeBytes offset p.encode = .ok b') : e.Fits h b' := by
  cases b <;> simp only [Body.writeBytes] at hw
  case record block refs =>
    split at hw
    · cases hw
      obtain ⟨hc, hh⟩ := fits_record.mp hf
      exact fits_record.mpr ⟨hc, hh.overwrite hl hm hp hk⟩
    · cases hw
  all_goals cases hw

/-- A slot keeps its instance in order, if an array field gets an array or nothing. -/
theorem Fits.writeSlot (hf : e.Fits h b) (hl : e.layout.Sound) (hm : f ∈ e.layout.fields)
    {index : Nat} (hp : f.place = .slot index) {v : Value}
    (hv : f.type.category = .array → Field.takesArray h v = true)
    (hw : b.writeSlot index v = .ok b') : e.Fits h b' := by
  cases b <;> simp only [Body.writeSlot] at hw
  case record block refs =>
    split at hw
    · cases hw
      obtain ⟨hc, hh⟩ := fits_record.mp hf
      exact fits_record.mpr ⟨hc, hh.set hl hm hp hv⟩
    · cases hw
  all_goals cases hw

/-- What a slot of an array field reads as is an array or nothing. -/
theorem Fits.takesArray_of_readSlot (hf : e.Fits h b) (hm : f ∈ e.layout.fields) {index : Nat}
    (hp : f.place = .slot index) {v : Value} (hr : b.readSlot index = .ok v)
    (ht : f.type.category = .array) : Field.takesArray h v = true := by
  cases b <;> simp only [Body.readSlot] at hr
  case record block refs =>
    split at hr
    · rename_i w hw
      cases hr
      exact (fits_record.mp hf).2.arrays f hm index hp ht _ hw
    · cases hr
  all_goals cases hr

/-- What a primitive field holds are the bytes of a primitive of its kind. -/
theorem Fits.encoded_of_readBytes (hf : e.Fits h b) (hm : f ∈ e.layout.fields) {offset : Nat}
    {kind : Primitive.Kind} (hp : f.place = .bytes offset kind) {bytes : List UInt8}
    (hr : b.readBytes offset kind.width = .ok bytes) :
    ∃ p : Primitive, p.kind = kind ∧ bytes = p.encode := by
  cases b <;> simp only [Body.readBytes] at hr
  case record block refs =>
    obtain ⟨p, hk, hw⟩ := (fits_record.mp hf).2.canonical f hm offset kind hp
    rw [hw] at hr
    cases hr
    exact ⟨p, hk, rfl⟩
  all_goals cases hr

end Registry.Entry

/-! ## Fields -/

section Fields

variable {r : Registry} {h : Heap} {o : ObjectId} {e : Registry.Entry} {f : Field} {b : Body}

/-- What a body refers to is there. -/
theorem Heap.WellFormed.closed (hw : h.WellFormed r) (o : ObjectId) :
    ∀ v ∈ (h.body o).values, h.Has v := by
  intro v hv
  by_cases ho : o < h.size
  · exact (hw o ho).closed v hv
  · have hn : h.objects[o]? = none := Array.getElem?_eq_none (Nat.not_lt.mp ho)
    unfold Heap.body Heap.get at hv
    rw [hn] at hv
    cases hv

/-- A field of an object: its class declares it or inherits it. -/
def Field.Of (r : Registry) (h : Heap) (o : ObjectId) (f : Field) : Prop :=
  ∃ e, r.get? (h.cls o) = some e ∧ f ∈ e.layout.fields

/-- A field that is found by name is a field of the object. -/
theorem Registry.exists_set_of_setField {name : String} {v : Value} {w : Write}
    (hs : r.setField h o name v = .ok w) : ∃ f : Field, f.Of r h o ∧ f.set h o v = .ok w := by
  unfold Registry.setField Registry.layout Registry.entry at hs
  cases he : r.get? (h.cls o) with
  | none =>
    rw [he] at hs
    cases hs
  | some e =>
    rw [he] at hs
    unfold Layout.field at hs
    cases hf : e.layout.field? name with
    | none =>
      simp only [Functor.map, Except.map, bind, Except.bind, hf] at hs
      cases hs
    | some f =>
      simp only [Functor.map, Except.map, bind, Except.bind, hf] at hs
      unfold Layout.field? at hf
      exact ⟨f, ⟨e, he, (List.mem_filter.mp (List.mem_of_getLast? hf)).1⟩, hs⟩

theorem wellFormed_writeBytes (hr : r.Sound) (hw : h.WellFormed r) (hf : f.Of r h o)
    {offset : Nat} {kind : Primitive.Kind} (hp : f.place = .bytes offset kind) {p : Primitive}
    (hk : p.kind = kind) (hb : (h.body o).writeBytes offset p.encode = .ok b) :
    (h.setBody o b).WellFormed r := by
  obtain ⟨e, he, hm⟩ := hf
  refine hw.setBody ?_ (Body.shape_writeBytes hb) ?_
  · intro e' he' hfit
    cases he.symm.trans he'
    exact hfit.writeBytes (hr.layouts _ _ he) hm hp hk hb
  · rw [Body.values_writeBytes hb]
    exact hw.closed o

theorem wellFormed_writeSlot (hr : r.Sound) (hw : h.WellFormed r) (hf : f.Of r h o)
    {index : Nat} (hp : f.place = .slot index) {v : Value} (hv : h.Has v)
    (ht : f.type.category = .array → Field.takesArray h v = true)
    (hb : (h.body o).writeSlot index v = .ok b) : (h.setBody o b).WellFormed r := by
  obtain ⟨e, he, hm⟩ := hf
  refine hw.setBody ?_ (Body.shape_writeSlot hb) ?_
  · intro e' he' hfit
    cases he.symm.trans he'
    exact hfit.writeSlot (hr.layouts _ _ he) hm hp ht hb
  · intro w hw'
    rcases Body.values_writeSlot hb w hw' with rfl | hw'
    · exact hv
    · exact hw.closed o w hw'

/-- Checked access writes only what keeps the heap well-formed. -/
theorem wellFormed_set (hr : r.Sound) (hw : h.WellFormed r) (hf : f.Of r h o) {v : Value}
    (hv : h.Has v) {w : Write} (hs : f.set h o v = .ok w) : (h.write w).WellFormed r := by
  obtain ⟨b, hb, rfl⟩ := Backend.write_of_map hs
  unfold Field.writeTo at hb
  split at hb
  · rename_i offset kind hp
    split at hb
    · rename_i p hu
      exact wellFormed_writeBytes hr hw hf hp (Primitive.kind_of_unbox? hu)
        (Backend.ok_of_mapError hb)
    · cases hb
  · rename_i index hp
    split at hb
    · cases hb
    · rename_i hn
      refine wellFormed_writeSlot hr hw hf hp hv ?_ (Backend.ok_of_mapError hb)
      intro ht
      cases ha : Field.takesArray h v with
      | true => rfl
      | false => exact absurd ⟨ht, ha⟩ hn

theorem wellFormed_reset (hr : r.Sound) (hw : h.WellFormed r) (hf : f.Of r h o) {w : Write}
    (hs : f.reset h o = .ok w) : (h.write w).WellFormed r := by
  unfold Field.reset at hs
  split at hs
  · rename_i offset kind hp
    rw [← Primitive.encode_zero] at hs
    obtain ⟨b, hb, rfl⟩ := Backend.write_of_map hs
    exact wellFormed_writeBytes hr hw hf hp (Primitive.kind_zero kind) (Backend.ok_of_mapError hb)
  · exact wellFormed_set hr hw hf (has_null h) hs

end Fields

/-! ## Elements and contents -/

section Elements

variable {r : Registry} {h : Heap} {o : ObjectId} {w : Write}

theorem Packed.length_set {kind : Primitive.Kind} {bytes bytes' : List UInt8} {index : Nat}
    {p : Primitive} (hs : Packed.set kind bytes index p = .ok bytes') :
    bytes'.length = bytes.length := by
  unfold Packed.set at hs
  split at hs
  · cases hs
  · rename_i hk
    split at hs
    · rename_i hle
      cases hs
      apply Bytes.length_overwrite
      rw [Primitive.length_encode, Decidable.not_not.mp hk]
      exact hle
    · cases hs

/-- An array with another element is of the same kind and length, and holds what it held or the
element. -/
theorem Body.setElement_keeps {cls : String} {index : Nat} {v : Value} {b b' : Body}
    (hs : b.setElement cls index v = .ok b') :
    (∀ e h, Registry.Entry.Fits e h b → Registry.Entry.Fits e h b') ∧ b'.shape = b.shape ∧
      ∀ x ∈ b'.values, x = v ∨ x ∈ b.values := by
  cases b <;> simp only [setElement] at hs
  case packed kind bytes =>
    split at hs
    · rename_i p _
      cases hp : Packed.set kind bytes index p with
      | error e =>
        rw [hp] at hs
        cases hs
      | ok bytes' =>
        rw [hp] at hs
        cases hs
        refine ⟨?_, rfl, fun _ h => Or.inr h⟩
        intro e h hf
        obtain ⟨hk, hd⟩ := Registry.Entry.fits_packed.mp hf
        exact Registry.Entry.fits_packed.mpr ⟨hk, (Packed.length_set hp).symm ▸ hd⟩
    · cases hs
  case slots items =>
    split at hs
    · cases hs
      refine ⟨?_, rfl, fun _ h => (List.mem_or_eq_of_mem_set h).symm⟩
      intro e h hf
      exact Registry.Entry.fits_slots.mpr (Registry.Entry.fits_slots.mp hf)
    · cases hs
  all_goals cases hs

theorem wellFormed_setElement (hw : h.WellFormed r) {index : Nat} {v : Value} (hv : h.Has v)
    (hs : h.setElement o index v = .ok w) : (h.write w).WellFormed r := by
  obtain ⟨b, hb, rfl⟩ := Backend.write_of_map hs
  obtain ⟨hfit, hshape, hval⟩ := Body.setElement_keeps hb
  apply hw.setBody (fun e _ hf => hfit e h hf) hshape
  intro x hx
  rcases hval x hx with rfl | hx
  · exact hv
  · exact hw.closed o x hx

theorem Heap.body_of_contents? {c : Container} (hc : h.contents? o = some c) :
    h.body o = .container c := by
  unfold Heap.contents? Body.contents? at hc
  split at hc
  · rename_i c' hb
    cases hc
    exact hb
  · cases hc

/-- A container may get other contents of its kind. -/
theorem wellFormed_setContents (hw : h.WellFormed r) {c : Container}
    (hc : ∀ v ∈ c.values, h.Has v) (hk : ∀ old, h.contents? o = some old → c.kind = old.kind)
    (hs : h.setContents o c = .ok w) : (h.write w).WellFormed r := by
  unfold Heap.setContents Heap.contents at hs
  cases hx : h.contents? o with
  | none =>
    rw [hx] at hs
    cases hs
  | some old =>
    rw [hx] at hs
    cases hs
    have hbody := Heap.body_of_contents? hx
    refine hw.setBody ?_ (by rw [hbody]; rfl) hc
    intro e _ hf
    rw [hbody, Registry.Entry.fits_container] at hf
    rw [Registry.Entry.fits_container, hk old hx]
    exact hf

end Elements

/-! ## New objects -/

/-- There is one more object, of a class, and the heap is well-formed. -/
structure Creates (r : Registry) (cls : ClassId) (m : Memory) (o : ObjectId) (m' : Memory) :
    Prop where
  new : o = m.heap.size
  added : ∃ x : Object, x.cls = cls ∧ m'.heap = m.heap.add x
  wellFormed : m'.heap.WellFormed r

section NewObjects

variable {r : Registry} {m : Memory} {cls : ClassId}

theorem Creates.spared {own : ObjectId → Prop} {o : ObjectId} {m' : Memory}
    (hc : Creates r cls m o m') : Spared own m.heap m'.heap := by
  obtain ⟨x, -, hx⟩ := hc.added
  exact hx ▸ Spared.of_add _

theorem Creates.lt_size {o : ObjectId} {m' : Memory} (hc : Creates r cls m o m') :
    o < m'.heap.size := by
  obtain ⟨x, -, hx⟩ := hc.added
  rw [hx, Heap.size_add, hc.new]
  exact Nat.lt_succ_self _

theorem Creates.cls_eq {o : ObjectId} {m' : Memory} (hc : Creates r cls m o m') :
    m'.heap.cls o = cls := by
  obtain ⟨x, rfl, hx⟩ := hc.added
  rw [hx, hc.new, Heap.cls, Heap.get_add_new]

/-- The new object may get another body. -/
theorem Creates.touched {o : ObjectId} {m' m'' : Memory} (hc : Creates r cls m o m')
    (ht : Touched o m'.heap m''.heap) (hw : m''.heap.WellFormed r) : Creates r cls m o m'' := by
  obtain ⟨x, rfl, hx⟩ := hc.added
  refine ⟨hc.new, ?_, hw⟩
  rcases ht with ht | ⟨body, ht⟩
  · exact ⟨x, rfl, ht.trans hx⟩
  · refine ⟨{ x with body }, rfl, ?_⟩
    rw [ht, hx, hc.new, Heap.setBody_add_new]

theorem creates_of_fits {tally : Tally} {e : Registry.Entry} {b : Body} (hw : m.heap.WellFormed r)
    (he : r.get? cls = some e) (hf : e.Fits m.heap b) (hc : ∀ v ∈ b.values, m.heap.Has v) :
    Creates r cls m m.heap.size ⟨m.heap.add (Object.new cls b), tally⟩ :=
  ⟨rfl, ⟨_, rfl, rfl⟩, hw.add he hf hc⟩

theorem has_of_mem_replicate {h : Heap} {n : Nat} {v : Value}
    (hv : v ∈ List.replicate n Value.null) : h.Has v :=
  List.eq_of_mem_replicate hv ▸ has_null h

theorem get?_of_decl {d : ClassDecl} (h : r.decl cls = .ok d) :
    ∃ e, r.get? cls = some e ∧ e.decl = d := by
  unfold Registry.decl Registry.entry at h
  cases he : r.get? cls with
  | none =>
    rw [he] at h
    cases h
  | some e =>
    rw [he] at h
    cases h
    exact ⟨e, rfl, rfl⟩

theorem layout_of_get? {e : Registry.Entry} (h : r.get? cls = some e) :
    r.layout cls = .ok e.layout := by
  unfold Registry.layout Registry.entry
  rw [h]
  rfl

theorem decl_of_get? {e : Registry.Entry} (h : r.get? cls = some e) : r.decl cls = .ok e.decl := by
  unfold Registry.decl Registry.entry
  rw [h]
  rfl

theorem Registry.Entry.fits_bare {e : Registry.Entry} (hl : e.layout.Sound)
    (hk : e.decl.kind = .concrete) (h : Heap) :
    e.Fits h (Body.bareRecord e.layout.blockSize e.layout.slotCount) :=
  fits_record.mpr ⟨hk, Layout.Holds.bare hl h⟩

theorem Registry.Entry.fits_empty {e : Registry.Entry} {kind : Container.Kind}
    (hk : e.decl.kind = .container kind) (h : Heap) : e.Fits h (.container (.empty kind)) :=
  fits_container.mpr (hk.trans (congrArg _ (Container.kind_empty kind).symm))

theorem values_empty (kind : Container.Kind) : (Container.empty kind).values = [] := by
  cases kind <;> rfl

namespace Allocator

theorem creates_allocateArray (hw : m.heap.WellFormed r) (cls : ClassId) (length : Nat) :
    Ends (allocateArray r cls length) m (Creates r cls m) (fun _ m' => m' = m) := by
  simp only [allocateArray, ends_bind, ends_memory_read]
  cases hd : r.decl cls with
  | error e => trivial
  | ok d =>
    obtain ⟨e, he, rfl⟩ := get?_of_decl hd
    simp only
    split
    · rename_i kind hk
      refine creates_of_fits hw he (Registry.Entry.fits_packed.mpr ⟨hk, ?_⟩) (by simp [Body.values])
      rw [Bytes.zeros, List.length_replicate]
      exact Nat.dvd_mul_left _ _
    · rename_i c hk
      exact creates_of_fits hw he (Registry.Entry.fits_slots.mpr ⟨c, hk⟩)
        fun _ => has_of_mem_replicate
    · exact rfl

theorem creates_allocate (hr : r.Sound) (hw : m.heap.WellFormed r) (cls : ClassId) :
    Ends (allocate r cls) m (Creates r cls m) (fun _ m' => m' = m) := by
  simp only [allocate, ends_bind, ends_memory_read]
  cases hd : r.decl cls with
  | error e => trivial
  | ok d =>
    obtain ⟨e, he, rfl⟩ := get?_of_decl hd
    simp only
    split
    · rename_i hk
      simp only [ends_bind, ends_memory_read, layout_of_get? he]
      exact creates_of_fits hw he (Registry.Entry.fits_bare (hr.layouts _ _ he) hk _)
        fun _ => has_of_mem_replicate
    · rename_i kind hk
      apply creates_of_fits hw he (Registry.Entry.fits_empty hk _)
      simp [Body.values, values_empty]
    · exact creates_allocateArray hw cls 0
    · exact rfl
    · exact rfl
    · exact rfl

end Allocator

end NewObjects

/-! ## Backends -/

/-- A backend that may be used with a registry: the fast one, or one that allocates by it. -/
def Backend.Over (r : Registry) (b : Backend) : Prop := b = .fast ∨ b = .portable r

/-- A portable backend works over its own registry. -/
theorem Backend.exists_over (b : Backend) : ∃ r, b.Over r := by
  cases b with
  | fast => exact ⟨.initial, Or.inl rfl⟩
  | portable r => exact ⟨r, Or.inr rfl⟩

/-- What may be put into a field in place of a value: what is there, and an array or nothing if the
value is one. -/
structure Replaces (h : Heap) (v copy : Value) : Prop where
  has : h.Has copy
  takesArray : Field.takesArray h v = true → Field.takesArray h copy = true

namespace Backend

variable {r : Registry} {m : Memory} {b : Backend} {f : PlannedField} {source target : ObjectId}

theorem ends_update_wellFormed {change : Heap → Except CloneError Write}
    (h : ∀ w, change m.heap = .ok w → (m.heap.write w).WellFormed r) :
    Ends (CopyM.update change) m (fun _ m' => m'.heap.WellFormed r) (fun _ m' => m' = m) := by
  rw [ends_copy_update]
  cases hc : change m.heap with
  | ok w => exact h w hc
  | error e => rfl

theorem slot_of_readField {h : Heap} {o : ObjectId} {v : Value}
    (hr : Direct.readField f h o = .ok v) :
    ∃ index, f.place = .slot index ∧ (h.body o).readSlot index = .ok v := by
  unfold Direct.readField at hr
  split at hr
  · rename_i index hp
    exact ⟨index, hp, ok_of_mapError hr⟩
  · cases hr

theorem slot_of_writeReference {h : Heap} {o : ObjectId} {v : Value} {w : Write}
    (hw : Direct.writeReference f h o v = .ok w) :
    ∃ index b, f.place = .slot index ∧ (h.body o).writeSlot index v = .ok b ∧ w = ⟨o, b⟩ := by
  unfold Direct.writeReference at hw
  split at hw
  · rename_i index hp
    obtain ⟨b, hb, rfl⟩ := write_of_map hw
    exact ⟨index, b, hp, ok_of_mapError hb, rfl⟩
  · cases hw

/-- What a backend reads from a field is there, and an array or nothing if the field is for
arrays. -/
theorem wellFormed_readField (hb : b.Over r) (hr : r.Sound) (hw : m.heap.WellFormed r)
    (hs : source < m.heap.size) (hf : f.toField.Of r m.heap source) :
    Ends (b.readField f source) m
      (fun v m' => m' = m ∧ m.heap.Has v ∧
        (f.type.category = .array → Field.takesArray m.heap v = true))
      (fun _ m' => m' = m) := by
  obtain ⟨e, he, hm⟩ := hf
  have slot : ∀ {index v}, f.place = .slot index → (m.heap.body source).readSlot index = .ok v →
      m.heap.Has v ∧ (f.type.category = .array → Field.takesArray m.heap v = true) := by
    intro index v hp hx
    exact ⟨hw.closed source v (Body.mem_values_of_readSlot hx),
      (hw.fits hs he).takesArray_of_readSlot hm hp hx⟩
  rcases hb with rfl | rfl
  · refine ends_mono (ends_read _) ?_ (fun _ _ h => h.2)
    rintro v _ ⟨hx, rfl⟩
    obtain ⟨index, hp, hx⟩ := slot_of_readField hx
    exact ⟨rfl, slot hp hx⟩
  · refine ends_mono (ends_read _) ?_ (fun _ _ h => h.2)
    rintro v _ ⟨hx, rfl⟩
    refine ⟨rfl, ?_⟩
    have hx := ok_of_mapError (ok_of_mapError hx)
    unfold Field.readFrom at hx
    split at hx
    · rename_i offset kind hp
      obtain ⟨p, rfl⟩ := Body.box_of_readBytes hx
      refine ⟨has_of_object? (Primitive.object?_box p), fun ha => ?_⟩
      have hcat := (hr.layouts _ _ he).category_of_bytes hm hp
      rw [hcat] at ha
      cases ha
    · rename_i index hp
      exact slot hp hx

theorem wellFormed_writeReference (hb : b.Over r) (hr : r.Sound) (hw : m.heap.WellFormed r)
    (hf : f.toField.Of r m.heap target) {v : Value} (hv : m.heap.Has v)
    (ht : f.type.category = .array → Field.takesArray m.heap v = true) :
    Ends (b.writeReference f target v) m (fun _ m' => m'.heap.WellFormed r)
      (fun _ m' => m' = m) := by
  rcases hb with rfl | rfl
  · refine ends_update_wellFormed fun w hs => ?_
    obtain ⟨index, b, hp, hx, rfl⟩ := slot_of_writeReference hs
    exact wellFormed_writeSlot hr hw hf hp hv ht hx
  · refine ends_update_wellFormed fun w hs => ?_
    exact wellFormed_set hr hw hf hv (ok_of_mapError hs)

theorem wellFormed_resetField (hb : b.Over r) (hr : r.Sound) (hw : m.heap.WellFormed r)
    (hf : f.toField.Of r m.heap target) :
    Ends (b.resetField f target) m (fun _ m' => m'.heap.WellFormed r) (fun _ m' => m' = m) := by
  rcases hb with rfl | rfl
  · refine ends_update_wellFormed fun w hs => ?_
    unfold Direct.resetField at hs
    split at hs
    · rename_i offset kind hp
      rw [← Primitive.encode_zero] at hs
      obtain ⟨b, hb, rfl⟩ := write_of_map hs
      exact wellFormed_writeBytes hr hw hf hp (Primitive.kind_zero kind) (ok_of_mapError hb)
    · obtain ⟨index, b, hp, hx, rfl⟩ := slot_of_writeReference hs
      exact wellFormed_writeSlot hr hw hf hp (has_null _) (fun _ => rfl) hx
  · refine ends_update_wellFormed fun w hs => ?_
    exact wellFormed_reset hr hw hf (ok_of_mapError hs)

/-- A primitive is carried between instances of one class. -/
theorem wellFormed_copyPrimitive (hb : b.Over r) (hr : r.Sound) (hw : m.heap.WellFormed r)
    (hs : source < m.heap.size) (hf : f.toField.Of r m.heap source)
    (hf' : f.toField.Of r m.heap target) (ht : f.type.category = .primitive) :
    Ends (b.copyPrimitive f source target) m (fun _ m' => m'.heap.WellFormed r)
      (fun _ m' => m' = m) := by
  obtain ⟨e, he, hm⟩ := hf
  rcases hb with rfl | rfl
  · refine ends_update_wellFormed fun w hx => ?_
    unfold Direct.copyPrimitive at hx
    split at hx
    · rename_i index hp
      exact absurd ht ((hr.layouts _ _ he).category_of_slot hm hp)
    · rename_i offset kind hp
      cases hy : ((m.heap.body source).readBytes offset kind.width).mapError (f.missed source) with
      | error miss =>
        rw [hy] at hx
        cases hx
      | ok bytes =>
        rw [hy] at hx
        obtain ⟨b, hb, rfl⟩ := write_of_map hx
        obtain ⟨p, hk, rfl⟩ :=
          (hw.fits hs he).encoded_of_readBytes hm hp (ok_of_mapError hy)
        exact wellFormed_writeBytes hr hw hf' hp hk (ok_of_mapError hb)
  · refine ends_update_wellFormed fun w hx => ?_
    cases hy : ((f.get m.heap source).mapError (f.fault source)) with
    | error fault =>
      rw [hy] at hx
      cases hx
    | ok v =>
      rw [hy] at hx
      refine wellFormed_set hr hw hf' ?_ (ok_of_mapError hx)
      have hv := ok_of_mapError (ok_of_mapError hy)
      unfold Field.readFrom at hv
      split at hv
      · obtain ⟨p, rfl⟩ := Body.box_of_readBytes hv
        exact has_of_object? (Primitive.object?_box p)
      · exact hw.closed source v (Body.mem_values_of_readSlot hv)

/-- A field may be carried as it is between instances of one class. -/
theorem wellFormed_carryField (hb : b.Over r) (hr : r.Sound) (hw : m.heap.WellFormed r)
    (hs : source < m.heap.size) (hf : f.toField.Of r m.heap source)
    (hf' : f.toField.Of r m.heap target) :
    Ends (b.copyField f source target none) m (fun _ m' => m'.heap.WellFormed r)
      (fun _ m' => m' = m) := by
  by_cases ht : f.type.category = .primitive
  · rw [b.copyField_primitive ht]
    exact wellFormed_copyPrimitive hb hr hw hs hf hf' ht
  · rw [b.copyField_none ht, ends_bind]
    refine ends_mono (wellFormed_readField hb hr hw hs hf) ?_ (fun _ _ h => h)
    intro v _ hpost
    rcases hpost with ⟨rfl, hv, ha⟩
    exact wellFormed_writeReference hb hr hw hf' hv ha

/-- The block of an instance may be carried to another of the same class. -/
theorem wellFormed_copyBlock (hw : m.heap.WellFormed r) (hs : source < m.heap.size)
    (hc : m.heap.cls source = m.heap.cls target) :
    Ends (b.copyBlock source target) m (fun _ m' => m'.heap.WellFormed r) (fun _ m' => m' = m) := by
  cases b with
  | portable r => exact hw
  | fast =>
    simp only [copyBlock]
    split
    · exact hw
    · simp only [ends_bind, ends_get]
      cases hx : Direct.copyBlock? m.heap source target with
      | none => exact hw
      | some w =>
        refine (?_ : (m.heap.write w).WellFormed r)
        unfold Direct.copyBlock? at hx
        split at hx
        · rename_i block refs old slots hbs hbt
          split at hx
          · cases hx
            refine hw.setBody ?_ (by rw [hbt]; rfl) ?_
            · intro e he hfit
              rw [hbt] at hfit
              have hfs := hw.fits hs (hc ▸ he)
              rw [hbs] at hfs
              obtain ⟨hk, hh⟩ := Registry.Entry.fits_record.mp hfs
              exact Registry.Entry.fits_record.mpr
                ⟨hk, hh.withSlots (Registry.Entry.fits_record.mp hfit).2⟩
            · have := hw.closed target
              rw [hbt] at this
              exact this
          · cases hx
        · cases hx

theorem wellFormed_writeElement (hw : m.heap.WellFormed r) (index : Nat) {v : Value}
    (hv : m.heap.Has v) :
    Ends (b.writeElement target index v) m (fun _ m' => m'.heap.WellFormed r)
      (fun _ m' => m' = m) := by
  cases b with
  | fast =>
    refine ends_update_wellFormed fun w hs => ?_
    unfold Direct.writeElement at hs
    split at hs
    · rename_i items hb
      split at hs
      · rename_i hi
        cases hs
        have hset : m.heap.setElement target index v =
            .ok ⟨target, .slots (items.set index v)⟩ := by
          simp only [Heap.setElement, hb, Body.setElement, if_pos hi]
          rfl
        exact wellFormed_setElement hw hv hset
      · cases hs
    · cases hs
  | portable r' =>
    refine ends_update_wellFormed fun w hs => ?_
    exact wellFormed_setElement hw hv (ok_of_mapError hs)

/-- A bare object may be made by the plan of a class that has instances or is for containers. -/
theorem creates_allocate (hb : b.Over r) (hr : r.Sound) (hw : m.heap.WellFormed r) {p : Plan}
    {cls : ClassId} {e : Registry.Entry} (he : r.get? cls = some e) (hd : p.Describes cls e)
    (hk : e.decl.kind = .concrete ∨ ∃ kind, e.decl.kind = .container kind) :
    Ends (b.allocate p) m (Creates r cls m) (fun _ m' => m' = m) := by
  rcases hb with rfl | rfl
  · simp only [allocate, hd.kind_eq, hd.cls_eq, hd.blockSize_eq, hd.slotCount_eq]
    rcases hk with hk | ⟨kind, hk⟩
    · rw [hk]
      exact creates_of_fits hw he (Registry.Entry.fits_bare (hr.layouts _ _ he) hk _)
        fun _ => has_of_mem_replicate
    · rw [hk]
      apply creates_of_fits hw he (Registry.Entry.fits_empty hk _)
      simp [Body.values, values_empty]
  · simp only [allocate, ends_allocating, hd.cls_eq]
    exact Allocator.creates_allocate hr hw cls

theorem creates_allocateSlots (hb : b.Over r) (hw : m.heap.WellFormed r) {cls : ClassId}
    {e : Registry.Entry} (he : r.get? cls = some e) {c : ClassId}
    (hk : e.decl.kind = .array (.reference c)) (length : Nat) :
    Ends (b.allocateSlots cls length) m (Creates r cls m) (fun _ m' => m' = m) := by
  rcases hb with rfl | rfl
  · exact creates_of_fits hw he (Registry.Entry.fits_slots.mpr ⟨c, hk⟩)
      fun _ => has_of_mem_replicate
  · simp only [allocateSlots, ends_allocating]
    exact Allocator.creates_allocateArray hw cls length

/-- Filling an array leaves it an array of the same kind and length. -/
theorem wellFormed_fillPacked (hw : m.heap.WellFormed r) (copy : ObjectId) (bytes : List UInt8) :
    Ends (fillPacked copy bytes) m (fun _ m' => m'.heap.WellFormed r) (fun _ m' => m' = m) := by
  simp only [fillPacked, ends_bind, ends_get]
  split
  · rename_i kind old hb
    split
    · rename_i hlen
      refine hw.setBody ?_ (by rw [hb]; rfl) (by simp [Body.values])
      intro e _ hf
      rw [hb, Registry.Entry.fits_packed, hlen] at hf
      exact Registry.Entry.fits_packed.mpr hf
    · exact rfl
  · exact hw

/-- The duplicate of a primitive array is of the array's class. One that breaks off leaves an array
behind. -/
theorem creates_duplicatePacked (hb : b.Over r) (hw : m.heap.WellFormed r)
    (hs : source < m.heap.size) :
    Ends (b.duplicatePacked source) m (Creates r (m.heap.cls source) m)
      (fun _ m' => m'.heap.WellFormed r ∧ Spared (fun _ => False) m.heap m'.heap) := by
  simp only [duplicatePacked, ends_bind, ends_get]
  obtain ⟨e, he, hf⟩ := hw.exists_entry hs
  rcases hb with rfl | rfl
  · cases hx : m.heap.body source with
    | packed kind bytes => exact creates_of_fits hw he (hx ▸ hf) (by simp [Body.values])
    | _ => exact ⟨hw, Spared.refl _⟩
  · cases hx : m.heap.body source with
    | packed kind bytes =>
      simp only [ends_bind, ends_allocating]
      refine ends_mono (Allocator.creates_allocateArray hw _ _) ?_ ?_
      · intro o m' hc
        refine ends_mono (ends_and (ends_fillPacked o bytes)
          (wellFormed_fillPacked hc.wellFormed o bytes)) ?_ ?_
        · rintro _ m'' ⟨ht, hw'⟩
          exact hc.touched ht hw'
        · rintro _ m'' ⟨-, rfl⟩
          exact ⟨hc.wellFormed, hc.spared⟩
      · rintro _ m' rfl
        exact ⟨hw, Spared.refl _⟩
    | _ => exact ⟨hw, Spared.refl _⟩

end Backend

end DeepCopy
